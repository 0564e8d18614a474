/-
The machine: the call stack, the registers, the heap, the output and the log.

* `Machine`: the state;
* `Exec`: what instructions do, with the operations on the operand stack of the
  current frame.
-/
import StackVM.Builtin.Print
import StackVM.Machine.CallStack
import StackVM.Machine.Log
import StackVM.Machine.Unwind

namespace StackVM

/-- The state of the machine. -/
structure Machine where
  calls : CallStack := .empty
  registers : Registers := {}
  /-- The namespace of builtins that top-level code starts from. -/
  builtins : Ref .namespace
  limits : Limits := {}
  heap : Heap := {}
  /-- What has been put out. -/
  output : Array Output := #[]
  log : Log := {}
deriving Inhabited

/-- The active frames, the current one first. -/
@[inline] def Machine.frames (m : Machine) : List Frame :=
  m.calls.frames

/-- Records an event. -/
@[inline] def Machine.record (m : Machine) (e : LogEvent) : Machine :=
  { m with log := m.log.add e }

/-- What instructions do: they may change the machine and may fail. -/
abbrev Exec := EStateM Fault Machine

namespace Exec

/-- Runs an operation on values. -/
@[inline] def lift {α : Type} (x : Eval α) : Exec α := fun m =>
  let h := m.heap
  let m := { m with heap := .empty }
  match x h with
  | .ok a h => .ok a { m with heap := h }
  | .error c h => .error (.cause c) { m with heap := h }

instance : MonadLift Eval Exec := ⟨lift⟩

/-- Fails with a cause. -/
@[inline] def fail {α : Type} (c : Cause) : Exec α :=
  throw (.cause c)

/-- Fails with a cause, if there is one. -/
@[inline] def ofExcept {α : Type} : Except Cause α → Exec α
  | .ok a => pure a
  | .error c => fail c

/-- Fails with a fault of the machine. -/
@[inline] def failInternal {α : Type} (i : Internal) : Exec α :=
  throw (.internal i)

/-- The heap. -/
@[inline] def heap : Exec Heap := do
  return (← get).heap

/-- The current frame. -/
@[inline] def frame : Exec Frame := do
  match (← get).frames with
  | f :: _ => return f
  | [] => failInternal .noActiveFrame

/-- Changes the current frame. -/
@[inline] def modifyFrame (g : Frame → Frame) : Exec Unit := do
  match (← get).frames with
  | _ :: _ => modify fun m => { m with calls := m.calls.modifyTop g }
  | [] => failInternal .noActiveFrame

/-- Pushes a value. -/
@[inline] def push (v : Value) : Exec Unit :=
  modifyFrame (·.push v)

/-- The top value. -/
@[inline] def peek : Exec Value := do
  match (← frame).stack with
  | v :: _ => return v
  | [] => failInternal .stackUnderflow

/-- Pops the top value. -/
@[inline] def pop : Exec Value := do
  match (← frame).stack with
  | v :: vs =>
    modifyFrame ({ · with stack := vs })
    return v
  | [] => failInternal .stackUnderflow

/-- Pops the topmost `n` values; they are returned in push order. -/
def popN (n : Nat) : Exec (List Value) := do
  match (← frame).popN? n with
  | some (vs, f) =>
    modifyFrame fun _ => f
    return vs
  | none => failInternal .stackUnderflow

/-- Goes on at `target`. -/
@[inline] def jump (target : Nat) : Exec Unit :=
  modifyFrame ({ · with ip := target })

/-- Puts out. -/
def put (os : List Output) : Exec Unit :=
  modify fun m => { m with output := m.output ++ os }

end Exec

end StackVM
