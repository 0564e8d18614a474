/-
Frames: the state of one code object under execution. A frame has an operand stack
and a stack of blocks, both written top first.

* `Signal`: a change of control that an instruction asks for;
* `Block`: a region that may take a signal, or the run of its handler;
* `Frame.popN`, `Frame.rotate`: operations on the operand stack.
-/
import StackVM.Exception.Raised
import StackVM.Opcode

namespace StackVM

/-- A change of control. The value of a return and the exception under way are in
the registers. -/
inductive Signal where
  | returning
  | raising
  | breaking
  | continuing (target : Nat)
deriving DecidableEq, Repr, Inhabited

/-- Name of a signal in the log. -/
def Signal.name : Signal → String
  | .returning => "Return"
  | .raising => "Exception"
  | .breaking => "Break"
  | .continuing target => s!"Continue({target})"

/-- A signal that waits while a handler runs. -/
inductive Pending where
  | none
  | returning (v : Value)
  | raising (r : Raised)
  | breaking
  | continuing (target : Nat)
deriving Inhabited

/-- Kinds of blocks. -/
inductive BlockKind where
  | loop
  | except
  | finally
  /-- A handler is running; a signal may wait for its end. -/
  | cleanup (pending : Pending)
deriving Inhabited

namespace BlockKind

/-- The kind of block that an instruction opens. -/
def ofSetup : BlockSetup → BlockKind
  | .loop => .loop
  | .except => .except
  | .finally => .finally

/-- Name of a kind in the log. -/
def name : BlockKind → String
  | .loop => "loop"
  | .except => "except"
  | .finally => "finally"
  | .cleanup _ => "cleanup"

end BlockKind

/-- A block. -/
structure Block where
  kind : BlockKind
  /-- Offset of the handler, or of the exit of a loop. -/
  handler : Nat
  /-- Depth of the operand stack when the block was opened. -/
  level : Nat
deriving Inhabited

/-- The state of one code object under execution. -/
structure Frame where
  code : CodeObject
  /-- The operand stack, top first. -/
  stack : List Value := []
  /-- The blocks, innermost first. -/
  blocks : List Block := []
  locals : Ref .namespace
  globals : Ref .namespace
  builtins : Ref .namespace
  /-- Cells of captured locals, then those of the closure. -/
  cells : List (Ref .cell)
  /-- Offset of the next instruction. -/
  ip : Nat := 0
  /-- Offset of the current instruction. -/
  offset : Nat := 0
deriving Inhabited

/-- The lowest `level` values of a stack. -/
def Frame.cut (stack : List Value) (level : Nat) : List Value :=
  stack.drop (stack.length - level)

namespace Frame

/-- The place of the current instruction. -/
def place (f : Frame) : Place :=
  ⟨f.code.code.name, f.offset⟩

/-- Pushes a value. -/
@[inline] def push (f : Frame) (v : Value) : Frame :=
  { f with stack := v :: f.stack }

/-- The topmost `n` values in push order, and the frame without them. -/
def popN? (f : Frame) (n : Nat) : Option (List Value × Frame) :=
  if n ≤ f.stack.length then
    some ((f.stack.take n).reverse, { f with stack := f.stack.drop n })
  else
    none

/-- Moves the top value below the `n - 1` values under it. -/
def rotate? (f : Frame) (n : Nat) : Option Frame :=
  if n ≤ f.stack.length then
    some { f with stack := (f.stack.take n).tail ++ (f.stack.take 1 ++ f.stack.drop n) }
  else
    none

/-- The innermost exception whose handler is running in the frame. -/
def handled? (f : Frame) : Option Raised :=
  f.blocks.findSome? fun b =>
    match b.kind with
    | .cleanup (.raising r) => some r
    | _ => none

end Frame

end StackVM
