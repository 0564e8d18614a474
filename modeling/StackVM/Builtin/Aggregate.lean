/-
Builtin functions that reduce a sequence to one value.

* `Builtin.extreme`: the first least or first greatest item;
* `Builtin.total`: the sum from the left.
-/
import StackVM.Arithmetic
import StackVM.Call.Args
import StackVM.Value.Order

namespace StackVM

namespace Builtin

/-- Which end of the order is looked for. -/
inductive Extreme where
  | least
  | greatest
deriving DecidableEq, Repr, Inhabited

namespace Extreme

/-- Name of the function that looks for it. -/
def name : Extreme → String
  | .least => "min"
  | .greatest => "max"

/-- Spelling of the comparison it is made with. -/
def symbol : Extreme → String
  | .least => "<"
  | .greatest => ">"

/-- The order of an item to the best so far in which it takes its place. -/
def better : Extreme → Ordering
  | .least => .lt
  | .greatest => .gt

end Extreme

/-- The best of an item and those that follow; of equal ones the first. -/
def best (e : Extreme) (h : Heap) : Value → List Value → Except Cause Value
  | v, [] => .ok v
  | v, w :: ws =>
    match h.compare? w v with
    | none => .error (.unordered e.symbol w.typeTag v.typeTag)
    | some o => best e h (if o = e.better then w else v) ws

/-- The least or greatest of several arguments, or of the items of one. -/
def extreme (e : Extreme) (args : Args) : Eval Value := do
  args.checkNoKeywords e.name
  let items ←
    match args.positional with
    | [] => throw (.tooFewArguments e.name 1 0)
    | [v] => do pure (← v.items).toList
    | vs => pure vs
  match items with
  | [] => throw (.emptyAggregate e.name)
  | v :: vs =>
    match best e (← get) v vs with
    | .ok w => return w
    | .error c => throw c

/-- Adds at most `n` items of an iterator to a value. -/
def addItems : Nat → Iter → Value → Eval Value
  | 0, _, acc => pure acc
  | n + 1, it, acc => do
    match ← it.next with
    | some (v, it') => addItems n it' (← acc.binary .add v)
    | none => pure acc

/-- The sum of the items of a value, onto a start that is no string. -/
def total (args : Args) : Eval Value := do
  let (v, start) ← args.oneOrTwo "sum"
  let acc ←
    match start with
    | some (.str _ _) => throw .sumOfStrings
    | some w => pure w
    | none => pure (.int 0)
  let it ← v.iterator
  addItems (it.sizeHint (← get) + 1) it acc

end Builtin

end StackVM
