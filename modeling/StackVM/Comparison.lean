/-
The comparisons of the instruction set.

* `Value.ordered`: the four orderings, a fault where there is no order;
* `Value.isCaughtBy`: whether a handler catches an exception;
* `Value.compareOp`: every comparison.
-/
import StackVM.Operator
import StackVM.Subscript
import StackVM.Value.Order

namespace StackVM

namespace Value

/-- Whether an order is the one that a comparison asks for. -/
def orderingHolds (op : CompareOp) (o : Ordering) : Bool :=
  match op with
  | .lt => o == .lt
  | .le => o != .gt
  | .gt => o == .gt
  | _ => o != .lt

/-- An ordering of floats; none holds of a not-a-number. -/
def floatOrderingHolds (op : CompareOp) (a b : Double) : Bool :=
  match op with
  | .lt => a.lt b
  | .le => a.le b
  | .gt => b.lt a
  | _ => b.le a

/-- The two numbers of a comparison that involves a float. -/
def floats? (l r : Value) : Option (Double × Double) :=
  if l.isFloat || r.isFloat then
    match l.asDouble?, r.asDouble? with
    | some a, some b => some (a, b)
    | _, _ => Option.none
  else
    Option.none

/-- One of the orderings `<`, `<=`, `>`, `>=`. -/
def ordered (op : CompareOp) (l r : Value) : Eval Bool := do
  match floats? l r with
  | some (a, b) => return floatOrderingHolds op a b
  | Option.none =>
    match (← get).compare? l r with
    | some o => return orderingHolds op o
    | Option.none => throw (.unordered op.symbol l.typeTag r.typeTag)

/-- The class of an exception instance, or the class itself. -/
def excClass? : Value → Option ExcClass
  | .exception e => some e.cls
  | .excClass c => some c
  | _ => Option.none

/-- The classes that a handler names. -/
def handledClasses : List Value → Option (List ExcClass)
  | [] => some []
  | .excClass c :: vs => (handledClasses vs).map (c :: ·)
  | _ :: _ => Option.none

/-- Whether a handler, a class or a tuple of classes, catches an exception. -/
def isCaughtBy (exc handler : Value) : Eval Bool :=
  let classes :=
    match handler with
    | .excClass c => some [c]
    | .tuple _ items => handledClasses items
    | _ => Option.none
  match classes with
  | some cs => pure (exc.excClass?.any fun c => cs.any c.isSubclassOf)
  | Option.none => throw .notCatchable

/-- A comparison. -/
def compareOp (op : CompareOp) (l r : Value) : Eval Bool := do
  match op with
  | .eq => return (← get).eq l r
  | .ne => return !(← get).eq l r
  | .lt | .le | .gt | .ge => ordered op l r
  | .isIn => r.contains l
  | .notIn => return !(← r.contains l)
  | .is => return l.is r
  | .isNot => return !l.is r
  | .exceptionMatch => l.isCaughtBy r

end Value

end StackVM
