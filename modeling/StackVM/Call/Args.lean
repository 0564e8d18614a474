/-
Arguments of calls, and the checks on their number that builtin functions share.

* `Args`: positional and keyword arguments, in call order;
* `Args.one`, `Args.atMostOne`, `Args.oneOrTwo`: the arguments, if they are as many.
-/
import StackVM.Heap.Basic

namespace StackVM

/-- A keyword argument; the name is a string object of the caller. -/
structure Keyword where
  ident : Ident
  name : String
  value : Value
deriving Inhabited

/-- Arguments of a call. -/
structure Args where
  positional : List Value
  keywords : List Keyword := []
deriving Inhabited

/-- The keyword arguments that names and values in turn stand for. -/
def Keyword.ofPairs : List Value → Except Cause (List Keyword)
  | .str ident name :: value :: rest => (ofPairs rest).map (⟨ident, name, value⟩ :: ·)
  | _ :: _ :: _ => .error .keywordNotString
  | _ => .ok []

namespace Args

/-- Refuses keyword arguments. -/
def checkNoKeywords (a : Args) (function : String) : Eval Unit :=
  if a.keywords.isEmpty then pure () else throw (.noKeywords function)

/-- The only argument. -/
def one (a : Args) (function : String) : Eval Value := do
  a.checkNoKeywords function
  match a.positional with
  | [v] => return v
  | vs => throw (.notOneArgument function vs.length)

/-- The only argument, if there is one. -/
def atMostOne (a : Args) (function : String) : Eval (Option Value) := do
  a.checkNoKeywords function
  match a.positional with
  | [] => return none
  | [v] => return some v
  | vs => throw (.tooManyArguments function 1 vs.length)

/-- The first argument, and the second if there is one. -/
def oneOrTwo (a : Args) (function : String) : Eval (Value × Option Value) := do
  a.checkNoKeywords function
  match a.positional with
  | [] => throw (.tooFewArguments function 1 0)
  | [v] => return (v, none)
  | [v, w] => return (v, some w)
  | vs => throw (.tooManyArguments function 2 vs.length)

end Args

end StackVM
