/-
Decoding. The bytes at an offset become one instruction whose argument is
resolved against the tables of its code object; prefixes that extend the argument
are folded in. Decoding executes nothing: it checks that the stream and every
index in it are in bounds.

* `Code.decode`: the instruction at an offset;
* `Code.instructions`: the instructions from the start, up to the first defect;
* `DecodeError.message`: the text of a defect.
-/
import StackVM.Code
import StackVM.Opcode

namespace StackVM

/-- A resolved instruction argument. -/
inductive Operand where
  | none
  | const (c : Const)
  | name (s : String)
  | local (s : String)
  /-- Index of a cell, in bounds. -/
  | free (index : Nat)
  /-- Offset of a jump target, in bounds. -/
  | jump (target : Nat)
  | compare (op : CompareOp)
  | int (n : Nat)
deriving Inhabited

/-- A decoded instruction. -/
structure Instruction where
  /-- Offset of the first byte, prefixes included. -/
  offset : Nat
  /-- Offset of the following instruction. -/
  next : Nat
  /-- The byte of the opcode. -/
  byte : UInt8
  /-- The opcode, if the byte encodes one. -/
  opcode : Option Opcode
  operand : Operand
  /-- The argument with its prefixes, zero if the opcode takes none. -/
  arg : Nat
deriving Inhabited

/-- What is wrong with an instruction stream. -/
inductive DecodeError.Kind where
  /-- The bytes run out. -/
  | unexpectedEnd
  /-- An index is outside its table. -/
  | indexOutOfRange (table : String) (index size : Nat)
  /-- A jump leaves the stream. -/
  | jumpOutOfRange (target : Nat)
  /-- A comparison argument designates no comparison. -/
  | badCompare (arg : Nat)
  /-- The prefixes exceed an argument of 32 bits. -/
  | argumentOverflow
deriving DecidableEq, Repr, Inhabited

/-- A defect of the instruction at `offset`. -/
structure DecodeError where
  offset : Nat
  kind : DecodeError.Kind
deriving DecidableEq, Repr, Inhabited

/-- The text of a defect. -/
def DecodeError.message (e : DecodeError) : String :=
  match e.kind with
  | .unexpectedEnd => s!"instruction at offset {e.offset} reads past the end of the bytecode"
  | .indexOutOfRange table index size =>
    s!"{table} index {index} out of range ({size} entries) at offset {e.offset}"
  | .jumpOutOfRange target => s!"jump target {target} out of range at offset {e.offset}"
  | .badCompare arg => s!"bad compare operator {arg} at offset {e.offset}"
  | .argumentOverflow => s!"EXTENDED_ARG overflow at offset {e.offset}"

namespace Code

/-- An entry of a table, or the fault that names the table. -/
def entry {α : Type} (table : String) (xs : Array α) (index : Nat) :
    Except DecodeError.Kind α :=
  match xs[index]? with
  | some x => .ok x
  | none => .error (.indexOutOfRange table index xs.size)

/-- A jump target inside the stream. -/
def jumpTarget (c : Code) (target : Nat) : Except DecodeError.Kind Operand :=
  if target < c.bytecode.size then .ok (.jump target) else .error (.jumpOutOfRange target)

/-- Resolves the argument of an opcode whose instruction ends at `next`. -/
def resolve (c : Code) (op : Opcode) (arg next : Nat) : Except DecodeError.Kind Operand :=
  match op.operandKind with
  | .none => .ok .none
  | .int => .ok (.int arg)
  | .const => (entry "consts" c.consts arg).map .const
  | .name => (entry "names" c.names arg).map .name
  | .local => (entry "varnames" c.varnames arg).map .local
  | .free =>
    if arg < c.cellCount then .ok (.free arg)
    else .error (.indexOutOfRange "cells" arg c.cellCount)
  | .jumpRel => c.jumpTarget (next + arg)
  | .jumpAbs => c.jumpTarget arg
  | .compare =>
    match CompareOp.ofIndex? arg with
    | some op => .ok (.compare op)
    | none => .error (.badCompare arg)

/-- Operand of a byte, known or not, whose instruction ends at `next`. -/
def operandOf (c : Code) (byte : UInt8) (arg next : Nat) : Except DecodeError.Kind Operand :=
  match Opcode.ofByte? byte with
  | some op => c.resolve op arg next
  | none => .ok (if haveArgument ≤ byte then .int arg else .none)

/-- The two-byte argument at `pos`. -/
def argumentAt? (c : Code) (pos : Nat) : Option Nat :=
  match c.bytecode[pos]?, c.bytecode[pos + 1]? with
  | some lo, some hi => some (lo.toNat + 256 * hi.toNat)
  | _, _ => none

/-- Decodes at `pos` the instruction that began at `start`; `extended` is what
the prefixes read so far contribute to its argument. -/
def decodeFrom (c : Code) (start pos extended : Nat) :
    Except DecodeError.Kind Instruction :=
  if h : pos < c.bytecode.size then
    let byte := c.bytecode[pos]
    if byte < haveArgument then
      (c.operandOf byte 0 (pos + 1)).map fun operand =>
        { offset := start, next := pos + 1, byte, opcode := Opcode.ofByte? byte, operand, arg := 0 }
    else
      match c.argumentAt? (pos + 1) with
      | none => .error .unexpectedEnd
      | some low =>
        let arg := extended + low
        if byte = Opcode.extendedArg.toByte then
          -- a second prefix leaves no room for the first one's argument
          if 65535 < arg then .error .argumentOverflow
          else c.decodeFrom start (pos + 3) (arg * 65536)
        else
          (c.operandOf byte arg (pos + 3)).map fun operand =>
            { offset := start, next := pos + 3, byte, opcode := Opcode.ofByte? byte, operand, arg }
  else
    .error .unexpectedEnd
termination_by c.bytecode.size - pos

/-- The instruction at an offset. -/
def decode (c : Code) (offset : Nat) : Except DecodeError Instruction :=
  match c.decodeFrom offset offset 0 with
  | .ok i => .ok i
  | .error kind => .error ⟨offset, kind⟩

/-- The instructions from an offset on, at most `fuel` of them. -/
def instructionsFrom (c : Code) : Nat → Nat → List (Except DecodeError Instruction)
  | 0, _ => []
  | fuel + 1, offset =>
    if c.bytecode.size ≤ offset then []
    else
      match c.decode offset with
      | .ok i => .ok i :: c.instructionsFrom fuel i.next
      | .error e => [.error e]

/-- The instructions of a code object in stream order, up to the first defect.
Each takes at least one byte, so the size of the stream bounds their number. -/
def instructions (c : Code) : List (Except DecodeError Instruction) :=
  c.instructionsFrom c.bytecode.size 0

end Code

end StackVM
