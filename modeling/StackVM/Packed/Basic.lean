/-
Packed bytes: the writers and readers of the parts of a packed code object.

A reader takes what it needs from the front of a list of bytes and leaves the
rest. Naturals are written base 128, least significant group first, with the high
bit set on all bytes but the last; a reader for `b` bits accepts at most as many
bytes as `b` bits take, and only the remaining bits in the last of them. Integers
are written as naturals, zigzag. A text is its size and its UTF-8 bytes, a
sequence its size and its items.

* `Packed.varint`, `Unpack.varint`; `Packed.text`, `Unpack.text`;
  `Packed.seq`, `Unpack.seq`: each writer with its reader;
* `PackError.message`: the text of a reader's fault.
-/
import StackVM.Double.Basic

namespace StackVM

/-- Why bytes cannot be read. -/
inductive PackError where
  | endOfBuffer
  | badVarint
  | badBool
  | badUtf8
  | badVariant
deriving DecidableEq, Repr, Inhabited

/-- The text of a reader's fault. -/
def PackError.message : PackError → String
  | .endOfBuffer => "Hit the end of buffer, expected more data"
  | .badVarint => "Found a varint that didn't terminate. Is the usize too big for this platform?"
  | .badBool => "Found a bool that wasn't 0 or 1"
  | .badUtf8 => "Tried to parse invalid utf-8"
  | .badVariant => "Serde Deserialization Error"

/-! ### Writers -/

namespace Packed

/-- A natural in groups of seven bits. -/
def varint (n : Nat) : List UInt8 :=
  if n < 128 then [UInt8.ofNat n] else UInt8.ofNat (n % 128 + 128) :: varint (n / 128)
termination_by n

/-- The natural an integer is written as. -/
def zigzag (i : Int) : Nat :=
  if 0 ≤ i then 2 * i.toNat else 2 * (-i).toNat - 1

/-- The low `width` bytes of a natural, least significant first. -/
def littleEndian : Nat → Nat → List UInt8
  | 0, _ => []
  | width + 1, n => UInt8.ofNat (n % 256) :: littleEndian width (n / 256)

/-- A truth value. -/
def bool (b : Bool) : List UInt8 :=
  [if b then 1 else 0]

/-- A signed integer. -/
def int (i : Int64) : List UInt8 :=
  varint (zigzag i.toInt)

/-- A float, as its bits. -/
def double (d : Double) : List UInt8 :=
  littleEndian 8 d.bits.toNat

/-- A text. -/
def text (s : String) : List UInt8 :=
  varint s.utf8ByteSize ++ s.toUTF8.data.toList

/-- A sequence. -/
def seq {α : Type} (item : α → List UInt8) (xs : List α) : List UInt8 :=
  varint xs.length ++ xs.flatMap item

end Packed

/-! ### Readers -/

/-- A reader: takes a value from the front of the bytes. -/
abbrev Unpack := StateT (List UInt8) (Except PackError)

namespace Unpack

/-- One byte. -/
def byte : Unpack UInt8 := fun bs =>
  match bs with
  | [] => .error .endOfBuffer
  | b :: rest => .ok (b, rest)

/-- `n` bytes. -/
def bytes (n : Nat) : Unpack (List UInt8) := fun bs =>
  if bs.length < n then .error .endOfBuffer else .ok (bs.take n, bs.drop n)

/-- A natural in at most `n` groups, the last of which is at most `last`. -/
def groups (last : Nat) : Nat → Unpack Nat
  | 0 => throw .badVarint
  | n + 1 => do
    let b ← byte
    if b < 128 then
      if n = 0 ∧ last < b.toNat then throw .badVarint
      return b.toNat
    else
      let high ← groups last n
      return b.toNat - 128 + 128 * high

/-- A natural below `2 ^ bits`. -/
def varint (bits : Nat) : Unpack Nat :=
  groups ((1 <<< (bits % 7)) - 1) (bits / 7 + 1)

/-- The integer a natural was written for. -/
def unzigzag (n : Nat) : Int :=
  if n % 2 = 0 then (n / 2 : Nat) else -((n / 2 : Nat) : Int) - 1

/-- A truth value. -/
def bool : Unpack Bool := do
  let b ← byte
  if b = 0 then return false
  else if b = 1 then return true
  else throw .badBool

/-- A signed integer. -/
def int : Unpack Int64 := do
  return Int64.ofInt (unzigzag (← varint 64))

/-- The natural with these bytes, least significant first. -/
def ofLittleEndian : List UInt8 → Nat
  | [] => 0
  | b :: bs => b.toNat + 256 * ofLittleEndian bs

/-- A float. -/
def double : Unpack Double := do
  return ⟨UInt64.ofNat (ofLittleEndian (← bytes 8))⟩

/-- A text. -/
def text : Unpack String := do
  let n ← varint 64
  let bs ← bytes n
  match String.fromUTF8? ⟨bs.toArray⟩ with
  | some s => return s
  | none => throw .badUtf8

/-- `n` items. -/
def items {α : Type} (item : Unpack α) : Nat → Unpack (List α)
  | 0 => return []
  | n + 1 => do
    let x ← item
    let xs ← items item n
    return x :: xs

/-- A sequence. -/
def seq {α : Type} (item : Unpack α) : Unpack (List α) := do
  let n ← varint 64
  items item n

end Unpack

end StackVM
