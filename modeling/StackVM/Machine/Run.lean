/-
Running code. A step executes one instruction and offers the signal it leads to to
the blocks of the frame. A frame that ends gives its value, or its exception, to the
frame that called it.

* `Machine.step`: one instruction;
* `Loop.settle`: ends frames until one goes on;
* `Loop.tick`: one turn of the run loop, which keeps the code of the current frame
  at hand;
* `Machine.runCode`: runs a code object to its end.
-/
import StackVM.Machine.Execute

namespace StackVM

namespace Machine

/-- Makes a fault at `p` the exception under way. -/
def capture (m : Machine) (f : Fault) (p : Place) : Machine :=
  let (r, h) := f.raisedAt p m.heap
  { m.record (.raised r.exc.cls p) with heap := h, registers.raised := some r }

/-- Offers a signal to the blocks of the current frame; gives it back if none takes
it. -/
def unwind (m : Machine) (s : Signal) : Machine × Option Signal :=
  match m.frames with
  | [] => (m, some s)
  | f :: _ =>
    let (f', registers, unwound) := f.unwind s m.registers
    let m := { m with calls := m.calls.modifyTop fun _ => f', registers }
    match unwound with
    | .escaped => (m, some s)
    | .continued => (m, none)
    | .consumed kind handler => (m.record (.consumed kind f.code.code.name s handler), none)

/-- Executes an instruction; a fault becomes the exception under way. -/
@[inline] def dispatch (m : Machine) (code : CodeObject) (i : Instruction) : Machine × Option Signal :=
  match Exec.execute code i m with
  | .ok s m => (m, s)
  | .error f m => (m.capture f ⟨code.code.name, i.offset⟩, some .raising)

/-- The current frame about to execute an instruction. -/
@[inline] def advance (m : Machine) (i : Instruction) : Machine :=
  { m with calls := m.calls.modifyTop ({ · with ip := i.next, offset := i.offset }) }

/-- Executes the next instruction of the current frame, whose code is `code`, and
gives the signal that ends the frame, if there is one. A frame whose code cannot be
decoded ends without a look at its blocks. -/
def step (code : CodeObject) (m : Machine) : Machine × Option Signal :=
  match m.frames with
  | [] => (m.capture (.internal .noActiveFrame) ⟨code.code.name, 0⟩, some .raising)
  | f :: _ =>
    match code.code.decode f.ip with
    | .error e => (m.capture (.cause (.undecodable e)) ⟨code.code.name, f.ip⟩, some .raising)
    | .ok i =>
      match ((m.record (.instruction code.code i)).advance i).dispatch code i with
      | (m, some s) => m.unwind s
      | (m, none) => (m, none)

/-- The exception of a signal that has left all loops of a frame. -/
def outsideLoop (m : Machine) (keyword : String) (p : Place) : Machine × Fault :=
  let (r, h) := Fault.raisedAt (.cause (.outsideLoop keyword)) p m.heap
  ({ m with heap := h }, .propagated r)

/-- Ends the current frame with a signal and gives its result. -/
def popFrame (m : Machine) (s : Signal) : Machine × Except Fault Value :=
  match m.calls.pop? with
  | none => (m, .error (.internal .frameUnderflow))
  | some (f, below) =>
    let m := { m with calls := below }
    let m := m.record (.leave f.code.code.name s below.depth)
    match s with
    | .returning =>
      ({ m with registers.result := none }, .ok (m.registers.result.getD .none))
    | .raising =>
      match m.registers.raised with
      | some r => ({ m with registers.raised := none }, .error (.propagated r))
      | none => (m, .error (.internal .missingException))
    | .breaking =>
      let (m, e) := m.outsideLoop "break" f.place
      (m, .error e)
    | .continuing _ =>
      let (m, e) := m.outsideLoop "continue" f.place
      (m, .error e)

end Machine

/-- The run loop: the machine, with the code of the current frame and the number of
frames kept at hand. -/
structure Loop where
  machine : Machine
  code : CodeObject
  depth : Nat
deriving Inhabited

/-- The outcome of a turn of the run loop. -/
inductive Turn where
  | running (l : Loop)
  | ended (m : Machine) (result : Except Fault Value)
deriving Inhabited

namespace Loop

/-- The run loop of a machine in its current frame. -/
def enter (m : Machine) : Turn :=
  match m.frames with
  | f :: _ => .running ⟨m, f.code, m.calls.depth⟩
  | [] => .ended m (.error (.internal .noActiveFrame))

/-- Ends the current frame with a signal. The code of the frame that called it and the
number of frames are at hand from there on. That frame gets the value pushed, or the
exception raised at the call; it may end in turn. There are at most `n` frames to
end. -/
def settle : Nat → Signal → Machine → Turn
  | 0, _, m => .ended m (.error (.internal .frameUnderflow))
  | n + 1, s, m =>
    let (m, result) := m.popFrame s
    match m.frames with
    | [] => .ended m result
    | f :: _ =>
      let code := f.code
      let depth := m.calls.depth
      match result with
      | .ok v => .running ⟨{ m with calls := m.calls.modifyTop (·.push v) }, code, depth⟩
      | .error e =>
        match (m.capture e ⟨code.code.name, f.offset⟩).unwind .raising with
        | (m, some s) => settle n s m
        | (m, none) => .running ⟨m, code, depth⟩

/-- One turn: a step, and the end of the frames that it ends. The code at hand is
fetched anew when the number of frames has changed. -/
def tick (l : Loop) : Turn :=
  match l.machine.step l.code with
  | (m, none) => if m.calls.depth = l.depth then .running { l with machine := m } else enter m
  | (m, some s) => settle m.calls.depth s m

/-- At most `fuel` turns; nothing if the run has not ended by then. -/
def run : Nat → Turn → Option (Machine × Except Fault Value)
  | _, .ended m result => some (m, result)
  | 0, .running _ => none
  | fuel + 1, .running l => run fuel l.tick

end Loop

namespace Machine

/-- The machine at the start of a run: the frame of a code object is the only one. -/
def start (m : Machine) (code : CodeObject) (globals locals : Option (Ref .namespace)) : Turn :=
  let m := { m with calls := .empty, registers := {} }
  let first : Exec Unit := do
    Exec.enter (← Frame.make code globals locals m.builtins [])
  match first m with
  | .ok () m => Loop.enter m
  | .error e m => .ended m (.error e)

/-- The result of a run as the host sees it. A fault that is not yet an exception
is raised at the start of the code. -/
def conclude (code : CodeObject) (m : Machine) : Except Fault Value → Machine × Except Raised Value
  | .ok v => (m, .ok v)
  | .error (.propagated r) => (m, .error r)
  | .error f =>
    let (r, h) := f.raisedAt ⟨code.code.name, 0⟩ m.heap
    ({ m with heap := h }, .error r)

/-- Runs a code object to its end, in at most `fuel` turns of the run loop. -/
def runCode (m : Machine) (fuel : Nat) (code : CodeObject)
    (globals locals : Option (Ref .namespace)) : Option (Machine × Except Raised Value) :=
  match Loop.run fuel (m.start code globals locals) with
  | some (m, result) => some (m.conclude code result)
  | none => none

end Machine

end StackVM
