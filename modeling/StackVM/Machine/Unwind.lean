/-
Unwinding: a signal is offered to the blocks of a frame, innermost first, until
one takes it. Each block that is left cuts the operand stack to its level.

A loop takes breaks and continues, an except block exceptions, a finally block
every signal. Except and finally blocks park the signal in a cleanup block while
their handler runs.

* `Registers`: the return value and the exception under way;
* `Frame.unwind`: the frame after unwinding and what became of the signal.
-/
import StackVM.Machine.Frame

namespace StackVM

/-- The payload of the signal under way. -/
structure Registers where
  /-- The exception under way. -/
  raised : Option Raised := none
  /-- The value that is being returned. -/
  result : Option Value := none
deriving Inhabited

/-- What became of a signal. -/
inductive Unwound where
  /-- No block took it. -/
  | escaped
  /-- A loop goes on. -/
  | continued
  /-- A block took it and control is at the block's handler. -/
  | consumed (kind : BlockKind) (handler : Nat)
deriving Inhabited

/-- The part of a frame that unwinding changes, with the registers. -/
structure Unwinding where
  stack : List Value
  blocks : List Block
  /-- Where control goes on, if it does not go on as before. -/
  target : Option Nat
  registers : Registers
  unwound : Unwound
deriving Inhabited

/-- What waits while the handler of a block runs that takes a signal, the
registers without it, and the value that the handler starts with. -/
structure Parked where
  pending : Pending
  registers : Registers
  instance? : Option Value := none
deriving Inhabited

namespace Block

/-- The signal as a block parks it, if it is one that the block's handler runs for. -/
def park? (kind : BlockKind) (s : Signal) (regs : Registers) : Option Parked :=
  match kind, s with
  | .except, .raising =>
    regs.raised.map fun r => ⟨.raising r, { regs with raised := none }, some (.exception r.exc)⟩
  | .finally, .raising =>
    regs.raised.map fun r => ⟨.raising r, { regs with raised := none }, none⟩
  | .finally, .returning =>
    some ⟨.returning (regs.result.getD .none), { regs with result := none }, none⟩
  | .finally, .breaking => some ⟨.breaking, regs, none⟩
  | .finally, .continuing target => some ⟨.continuing target, regs, none⟩
  | _, _ => none

/-- Offers a signal to a block with the blocks `below` it; `next` tries those. -/
def offer (b : Block) (below : List Block) (s : Signal) (stack : List Value) (regs : Registers)
    (next : List Value → Unwinding) : Unwinding :=
  match b.kind, s with
  | .loop, .continuing target =>
    { stack, blocks := b :: below, target := some target, registers := regs, unwound := .continued }
  | .loop, .breaking =>
    { stack := Frame.cut stack b.level, blocks := below, target := some b.handler, registers := regs
      unwound := .consumed b.kind b.handler }
  | kind, s =>
    let stack := Frame.cut stack b.level
    match park? kind s regs with
    | some p =>
      { stack := p.instance?.toList ++ stack
        blocks := ⟨.cleanup p.pending, b.handler, stack.length⟩ :: below
        target := some b.handler
        registers := p.registers
        unwound := .consumed kind b.handler }
    | none => next stack

/-- Offers a signal to blocks, innermost first. -/
def unwind (s : Signal) (regs : Registers) : List Block → List Value → Unwinding
  | [], stack => { stack, blocks := [], target := none, registers := regs, unwound := .escaped }
  | b :: below, stack => b.offer below s stack regs (unwind s regs below)

end Block

/-- Offers a signal to the blocks of a frame. -/
def Frame.unwind (f : Frame) (s : Signal) (regs : Registers) : Frame × Registers × Unwound :=
  let u := Block.unwind s regs f.blocks f.stack
  ({ f with stack := u.stack, blocks := u.blocks, ip := u.target.getD f.ip }, u.registers, u.unwound)

end StackVM
