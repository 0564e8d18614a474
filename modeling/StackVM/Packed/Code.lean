/-
Packed code objects. The fields are written in order: name, instruction stream,
constants, the four tables of names, the counts, the flags and the stack hint. A
constant is its variant number followed by its payload.

* `Code.dump`: the bytes of a code object;
* `Code.load`: the code object at the front of some bytes; what follows it is
  ignored.
-/
import StackVM.Code
import StackVM.Packed.Basic

namespace StackVM

mutual

/-- The bytes of a constant. -/
def Const.dump : Const → List UInt8
  | .none => Packed.varint 0
  | .bool b => Packed.varint 1 ++ Packed.bool b
  | .int i => Packed.varint 2 ++ Packed.int i
  | .float d => Packed.varint 3 ++ Packed.double d
  | .str s => Packed.varint 4 ++ Packed.text s
  | .tuple xs => Packed.varint 5 ++ Packed.varint xs.length ++ Const.dumpAll xs
  | .code c => Packed.varint 6 ++ Code.dump c
termination_by structural c => c

/-- The bytes of constants, one after the other. -/
def Const.dumpAll : List Const → List UInt8
  | [] => []
  | x :: xs => Const.dump x ++ Const.dumpAll xs
termination_by structural cs => cs

/-- The bytes of a constant pool. -/
def Const.dumpPool : Array Const → List UInt8
  | ⟨xs⟩ => Packed.varint xs.length ++ Const.dumpAll xs
termination_by structural cs => cs

/-- The bytes of a code object. -/
def Code.dump : Code → List UInt8
  | ⟨name, bytecode, consts, names, varnames, cellvars, freevars, argCount, kwonlyArgCount,
      flags, stackSize⟩ =>
    Packed.text name ++ Packed.seq (fun b => [b]) bytecode.toList ++ Const.dumpPool consts ++
      Packed.seq Packed.text names.toList ++ Packed.seq Packed.text varnames.toList ++
      Packed.seq Packed.text cellvars.toList ++ Packed.seq Packed.text freevars.toList ++
      Packed.varint argCount.toNat ++ Packed.varint kwonlyArgCount.toNat ++
      Packed.varint flags.toNat ++ Packed.varint stackSize.toNat
termination_by structural c => c

end

namespace Unpack

/-- A table of names. -/
def names : Unpack (Array String) := do
  return (← seq text).toArray

/-- A count of 64 bits. -/
def count : Unpack UInt64 := do
  return UInt64.ofNat (← varint 64)

/-- A code object whose constants are read by `const`. -/
def codeWith (const : Unpack Const) : Unpack Code := do
  let name ← text
  let bytecode ← seq byte
  let consts ← seq const
  let globals ← names
  let varnames ← names
  let cellvars ← names
  let freevars ← names
  let argCount ← count
  let kwonlyArgCount ← count
  let flags ← varint 32
  let stackSize ← count
  return {
    name, bytecode := bytecode.toArray, consts := consts.toArray, names := globals, varnames
    cellvars, freevars, argCount, kwonlyArgCount, flags := UInt32.ofNat flags, stackSize }

/-- A constant nested at most `depth` deep. -/
def const : Nat → Unpack Const
  | 0 => throw .endOfBuffer
  | depth + 1 => do
    let variant ← varint 32
    match variant with
    | 0 => return .none
    | 1 => return .bool (← bool)
    | 2 => return .int (← int)
    | 3 => return .float (← double)
    | 4 => return .str (← text)
    | 5 => return .tuple (← seq (const depth))
    | 6 => return .code (← codeWith (const depth))
    | _ => throw .badVariant

end Unpack

/-- Reads a code object from the front of the bytes. A constant takes at least
one byte, so constants are nested less deep than there are bytes. -/
def Code.load (bytes : List UInt8) : Except PackError Code :=
  match Unpack.codeWith (Unpack.const bytes.length) bytes with
  | .ok (c, _) => .ok c
  | .error e => .error e

end StackVM
