/-
Words: signed integers of 64 bits. An operation on words gives a word, or nothing where
its result is none.

* `Word.ofInt?`: an integer as a word;
* `Word.mul?`, `Word.pow?`: products, and powers by repeated squaring;
* `Word.toNat32?`, `Word.shiftCount`, `Word.shiftLeft`, `Word.shiftRight`: shifts;
* `WordDivision`: division that rounds down, and parity.
-/

namespace StackVM

namespace Word

/-- The word that stands for an integer, if there is one. -/
def ofInt? (i : Int) : Option Int64 :=
  if -0x8000000000000000 ≤ i ∧ i < 0x8000000000000000 then some (Int64.ofInt i) else none

/-- The product of two words, if it is one. -/
def mul? (a b : Int64) : Option Int64 :=
  ofInt? (a.toInt * b.toInt)

/-- A word times a power of another, by repeated squaring. There is nothing as soon as a
product on the way is no word, so the base is not squared once more after its last use. -/
def mulPow? (acc base : Int64) (n : Nat) : Option Int64 := do
  let acc ← (if n % 2 = 1 then mul? acc base else some acc)
  if n ≤ 1 then
    return acc
  else
    mulPow? acc (← mul? base base) (n / 2)
termination_by n

/-- A power of a word, if it is one. -/
def pow? (a : Int64) (n : Nat) : Option Int64 :=
  mulPow? 1 a n

/-- A word as a number of 32 bits without a sign, if it is one. -/
def toNat32? (b : Int64) : Option Nat :=
  if 0 ≤ b.toInt ∧ b.toInt < 0x100000000 then some b.toInt.toNat else none

/-- The number of places of a shift, kept in 32 bits: what they do not hold counts as the
greatest that they do. -/
def shiftCount (b : Int64) : Nat :=
  (toNat32? b).getD 0xffffffff

/-- A word moved to the left in 128 bits. -/
def shiftLeft (a : Int64) (n : Nat) : BitVec 128 :=
  a.toBitVec.signExtend 128 <<< n

/-- A word moved to the right; its sign comes in from the left. -/
def shiftRight (a : Int64) (n : Nat) : Int64 :=
  .ofBitVec (a.toBitVec.sshiftRight n)

end Word

/-- Division of words that rounds down, the remainder that it leaves, and parity. The
operators are written over these three; what they ask of them is `WordDivision.RoundsDown`. -/
class WordDivision where
  divFloor : Int64 → Int64 → Int64
  modFloor : Int64 → Int64 → Int64
  isEven : Int64 → Bool

namespace WordDivision

/-- Division of words as that of the integers for which they stand. -/
instance ofIntegers : WordDivision where
  divFloor a b := .ofInt (a.toInt.fdiv b.toInt)
  modFloor a b := .ofInt (a.toInt.fmod b.toInt)
  isEven a := a.toInt.emod 2 == 0

end WordDivision

end StackVM
