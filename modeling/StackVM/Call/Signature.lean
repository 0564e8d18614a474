/-
Signatures and the binding of arguments to parameters. Positional arguments fill
the positional parameters from the left, keywords fill parameters by name, and
defaults fill what is left.

* `Code.signature`: the parameters of a code object;
* `Signature.bind`: the value of each parameter, or the first fault.
-/
import StackVM.Call.Args

namespace StackVM

/-- Parameters of a function. -/
structure Signature where
  positional : List String
  kwonly : List String
  /-- Name that collects further positional arguments. -/
  varargs : Option String
  /-- Name that collects further keywords. -/
  varkeywords : Option String
deriving DecidableEq, Repr, Inhabited

/-- `size` names from position `start` on, or none if the table is too short. -/
def Code.paramNames (c : Code) (start size : Nat) : List String :=
  if start + size ≤ c.varnames.size then (c.varnames.toList.drop start).take size else []

/-- The parameters of a code object. The two counts are added without a bound: a sum of
more than 64 bits is not wrapped, and as a position it is beyond every table of names. -/
def Code.signature (c : Code) : Signature :=
  let positional := c.argCount.toNat
  let kwonly := c.kwonlyArgCount.toNat
  let next := positional + kwonly
  { positional := c.paramNames 0 positional
    kwonly := c.paramNames positional kwonly
    varargs := if c.hasVarargs then c.varnames[next]? else none
    varkeywords := if c.hasVarkeywords then c.varnames[next + c.hasVarargs.toNat]? else none }

namespace Signature

/-- The parameters that arguments can fill, in order. -/
def params (s : Signature) : List String :=
  s.positional ++ s.kwonly

/-- Parameters under way: the values they have so far, and the keywords that no
parameter takes. -/
structure Slots where
  values : List (Option Value)
  extra : Dict := .empty
deriving Inhabited

/-- The slots after the positional arguments. -/
def fillPositional (s : Signature) (args : List Value) : Slots :=
  let filled := (args.take s.positional.length).map some
  { values := filled ++ List.replicate (s.params.length - filled.length) none }

/-- The slots after one more keyword. -/
def fillKeyword (s : Signature) (function : String) (slots : Slots) (k : Keyword) :
    Except Cause Slots :=
  match s.params.idxOf? k.name with
  | some i =>
    match slots.values[i]? with
    | some (some _) => .error (.duplicateArgument function k.name)
    | _ => .ok { slots with values := slots.values.set i (some k.value) }
  | none =>
    if s.varkeywords.isNone then .error (.unexpectedKeyword function k.name)
    else if slots.extra.contains (.str k.name) then .error (.duplicateArgument function k.name)
    else .ok { slots with extra := slots.extra.set (.str k.name) (.str k.ident k.name) k.value }

/-- The slots after the keywords, in call order. -/
def fillKeywords (s : Signature) (function : String) :
    Slots → List Keyword → Except Cause Slots
  | slots, [] => .ok slots
  | slots, k :: ks =>
    match s.fillKeyword function slots k with
    | .ok slots => s.fillKeywords function slots ks
    | .error c => .error c

/-- Default of the positional parameter at position `i` of `n`. The first parameters have
none if there are fewer defaults than parameters; the first defaults are passed over if
there are more. -/
def default? (defaults : List Value) (n i : Nat) : Option Value :=
  let firstDefault := n - defaults.length
  let skipped := defaults.length - n
  if firstDefault ≤ i then defaults[i - firstDefault + skipped]? else none

/-- Positional parameters with defaults where they have no value. -/
def withDefaults (defaults : List Value) (slots : List (Option Value)) : List (Option Value) :=
  slots.mapIdx fun i slot => slot.or (default? defaults slots.length i)

/-- Keyword-only parameters with defaults where they have no value. -/
def withKeywordDefaults (names : List String) (kwdefaults : List (String × Value))
    (slots : List (Option Value)) : List (Option Value) :=
  List.zipWith
    (fun name slot => slot.or ((kwdefaults.find? fun d => d.1 == name).map Prod.snd))
    names slots

/-- The names whose slot is empty. -/
def missing (names : List String) (slots : List (Option Value)) : List String :=
  ((names.zip slots).filter fun p => p.2.isNone).map Prod.fst

/-- The names with the values that the slots have, in order. -/
def bound (names : List String) (slots : List (Option Value)) : List (String × Value) :=
  names.zip (slots.filterMap id)

/-- The values of the parameters that arguments fill, and the keywords left over. -/
def bindParams (s : Signature) (function : String) (defaults : List Value)
    (kwdefaults : List (String × Value)) (args : Args) :
    Except Cause (List (String × Value) × Dict) := do
  let n := s.positional.length
  if n < args.positional.length ∧ s.varargs.isNone then
    throw (.tooManyPositional function (n - defaults.length) n args.positional.length)
  let slots ← s.fillKeywords function (s.fillPositional args.positional) args.keywords
  let positional := withDefaults defaults (slots.values.take n)
  let absent := missing s.positional positional
  if !absent.isEmpty then throw (.missingPositional function absent)
  let kwonly := withKeywordDefaults s.kwonly kwdefaults (slots.values.drop n)
  let absent := missing s.kwonly kwonly
  if !absent.isEmpty then throw (.missingKeywordOnly function absent)
  return (bound s.params (positional ++ kwonly), slots.extra)

/-- The value of each parameter: first those that arguments fill, in order, then
the tuple of further positional arguments and the dict of further keywords. -/
def bind (s : Signature) (function : String) (defaults : List Value)
    (kwdefaults : List (String × Value)) (args : Args) : Eval (List (String × Value)) := do
  match s.bindParams function defaults kwdefaults args with
  | .error c => throw c
  | .ok (params, extra) =>
    let rest ←
      match s.varargs with
      | some name => do
        pure [(name, ← Eval.newTuple (args.positional.drop s.positional.length))]
      | none => pure []
    let keywords ←
      match s.varkeywords with
      | some name => do pure [(name, ← Eval.newDict extra)]
      | none => pure []
    return params ++ rest ++ keywords

end Signature

end StackVM
