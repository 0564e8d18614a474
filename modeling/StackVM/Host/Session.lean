/-
What a host does with a machine besides running code.

* `Machine.create`: a machine at rest;
* `Machine.eval`: an operation on its values;
* `Machine.recordAt`: starts a log.
-/
import StackVM.Machine.Run

namespace StackVM

namespace Machine

/-- A machine at rest, with its namespace of builtins. -/
def create (limits : Limits) : Machine :=
  let heap : Heap := {}
  { builtins := heap.namespaces.next
    limits
    heap := { heap with namespaces := heap.namespaces.alloc .builtins } }

/-- The result of an operation on the values of a machine. -/
def eval {α : Type} (m : Machine) (x : Eval α) : Machine × Except Cause α :=
  let h := m.heap
  let m := { m with heap := .empty }
  match x h with
  | .ok a h => ({ m with heap := h }, .ok a)
  | .error c h => ({ m with heap := h }, .error c)

/-- The machine with an empty log of a level. -/
def recordAt (m : Machine) (level : LogLevel) : Machine :=
  { m with log := { level } }

/-- The machine with nothing put out so far. -/
def clearOutput (m : Machine) : Machine :=
  { m with output := #[] }

end Machine

end StackVM
