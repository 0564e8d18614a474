/-
Values that a host hands to a machine: a description that stands on its own, and
the value it builds in a heap.

* `Literal`: the descriptions;
* `Literal.build`: the value, made of new objects.
-/
import StackVM.Machine.Execute

namespace StackVM

/-- A description of a value. -/
inductive Literal where
  | const (c : Const)
  | list (items : List Literal)
  | tuple (items : List Literal)
  | emptyDict
  | range (r : Range)
  | builtin (b : Builtin)
  | excClass (c : ExcClass)
  | exception (c : ExcClass) (arg : Option String)
  | emptyCell
  | cell (content : Literal)
deriving Inhabited

mutual

/-- The value of a description, made of new objects. -/
def Literal.build : Literal → Eval Value
  | .const c => do c.load (← Eval.freshIdent) []
  | .list items => do Eval.newList (← Literal.buildAll items).toArray
  | .tuple items => do Eval.newTuple (← Literal.buildAll items)
  | .emptyDict => Eval.newDict .empty
  | .range r => pure (.range r)
  | .builtin b => pure (.builtin b)
  | .excClass c => pure (.excClass c)
  | .exception c arg => do return .exception (← Eval.newException c arg)
  | .emptyCell => do return .cell (← Eval.newCell none)
  | .cell content => do return .cell (← Eval.newCell (some (← Literal.build content)))
termination_by structural l => l

/-- The values of descriptions. -/
def Literal.buildAll : List Literal → Eval (List Value)
  | [] => pure []
  | l :: ls => do
    let v ← Literal.build l
    return v :: (← Literal.buildAll ls)
termination_by structural ls => ls

end

end StackVM
