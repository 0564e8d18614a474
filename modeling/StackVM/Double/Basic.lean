/-
Binary floating-point numbers of 64 bits. A `Double` is its bit pattern, so that
two numbers can be told apart bit by bit (the sign of zero, the payload of a
not-a-number) while the arithmetic goes through the native type.

* `Double.unpack`: the number behind a bit pattern, `± mantissa * 2 ^ scale`
  when it is finite;
* `Double.nearest`: the double closest to a quotient of naturals, a tie going to
  the even mantissa;
* `Double.ofInt`, `Double.truncate?`, `Double.integral?`: to and from integers.
-/

namespace StackVM

/-- A floating-point number, given by its 64 bits. -/
structure Double where
  bits : UInt64
deriving DecidableEq, Repr, Inhabited

namespace Double

/-- The number a bit pattern stands for. -/
inductive Unpacked where
  | nan
  | infinite (negative : Bool)
  /-- The number `± mantissa * 2 ^ scale`. -/
  | finite (negative : Bool) (mantissa : Nat) (scale : Int)
deriving DecidableEq, Repr

/-- Whether the sign bit is set. -/
def isNegative (d : Double) : Bool :=
  d.bits >>> 63 != 0

/-- The biased exponent field. -/
def exponentField (d : Double) : Nat :=
  ((d.bits >>> 52) &&& 0x7ff).toNat

/-- The fraction field, without the hidden bit. -/
def fractionField (d : Double) : Nat :=
  (d.bits &&& 0xfffffffffffff).toNat

/-- The number behind the bits. -/
def unpack (d : Double) : Unpacked :=
  let e := d.exponentField
  let f := d.fractionField
  if e = 2047 then
    if f = 0 then .infinite d.isNegative else .nan
  else if e = 0 then
    .finite d.isNegative f (-1074)
  else
    .finite d.isNegative (0x10000000000000 + f) ((e : Int) - 1075)

/-- Not a number. -/
def isNaN (d : Double) : Bool :=
  d.exponentField == 2047 && d.fractionField != 0

/-- Positive or negative zero. -/
def isZero (d : Double) : Bool :=
  d.bits &&& 0x7fffffffffffffff == 0

/-- The bits with the sign cleared. -/
def abs (d : Double) : Double :=
  ⟨d.bits &&& 0x7fffffffffffffff⟩

/-- The bits with the sign flipped. -/
def neg (d : Double) : Double :=
  ⟨d.bits ^^^ 0x8000000000000000⟩

/-- The magnitude of `d` with the sign of `s`. -/
def copySign (d s : Double) : Double :=
  ⟨d.abs.bits ||| (s.bits &&& 0x8000000000000000)⟩

/-- Positive zero. -/
def zero : Double := ⟨0⟩

/-- One. -/
def one : Double := ⟨0x3ff0000000000000⟩

/-- Positive infinity. -/
def infinity : Double := ⟨0x7ff0000000000000⟩

/-- The not-a-number that is written and read as text. -/
def nan : Double := ⟨0x7ff8000000000000⟩

/-- `d` or its negation. -/
def withSign (negative : Bool) (d : Double) : Double :=
  if negative then d.neg else d

/-! ### Rounding a quotient -/

/-- The quotient of naturals rounded to the nearest natural, a tie going to the
even one. -/
def roundQuotient (num den : Nat) : Nat :=
  let q := num / den
  let r := num % den
  if 2 * r < den then q
  else if den < 2 * r then q + 1
  else q + q % 2

/-- The fraction `num / den` divided by `2 ^ e`, as a fraction again. -/
def descale (num den : Nat) (e : Int) : Nat × Nat :=
  if 0 ≤ e then (num, den <<< e.toNat) else (num <<< (-e).toNat, den)

/-- The exponent that leaves 53 bits before the point of `num / den`, and at
least the exponent of the subnormal numbers. -/
def binaryScale (num den : Nat) : Int :=
  -- `num / den / 2 ^ e` lies strictly between `2 ^ 51` and `2 ^ 53`
  let e : Int := (num.log2 : Int) - (den.log2 : Int) - 52
  let (n, d) := descale num den e
  max (if n / d < 0x10000000000000 then e - 1 else e) (-1074)

/-- The double nearest to `± num / den`, for a positive `den`; a tie goes to the
even mantissa, and what is too large is infinite. -/
def nearest (negative : Bool) (num den : Nat) : Double :=
  if num = 0 then
    withSign negative zero
  else
    let e := binaryScale num den
    let (n, d) := descale num den e
    -- a mantissa of 54 bits carries into the exponent field
    let body := (e + 1074).toNat * 0x10000000000000 + roundQuotient n d
    withSign negative ⟨UInt64.ofNat (min body infinity.bits.toNat)⟩

/-- The double nearest to `± mantissa * 2 ^ scale`. -/
def ofDyadic (negative : Bool) (mantissa : Nat) (scale : Int) : Double :=
  let (n, d) := descale mantissa 1 (-scale)
  nearest negative n d

/-- The double nearest to an integer. -/
def ofInt (i : Int) : Double :=
  nearest (decide (i < 0)) i.natAbs 1

/-! ### Integers -/

/-- The integer part, toward zero, of a finite number. -/
def truncate? (d : Double) : Option Int :=
  match d.unpack with
  | .finite negative m q =>
    let n : Nat := if 0 ≤ q then m <<< q.toNat else m >>> (-q).toNat
    some (if negative then -(n : Int) else n)
  | _ => none

/-- The integer a finite number is equal to, if it is one. -/
def integral? (d : Double) : Option Int :=
  match d.unpack with
  | .finite _ m q =>
    if 0 ≤ q ∨ m % (1 <<< (-q).toNat) = 0 then d.truncate? else none
  | _ => none

/-- The greatest integral double that is not above `d`. -/
def floor (d : Double) : Double :=
  match d.unpack with
  | .finite negative m q =>
    if 0 ≤ q then
      d
    else
      let n : Int := (if negative then -(m : Int) else m) >>> (-q).toNat
      if n = 0 then zero.copySign d else ofInt n
  | _ => d

end Double

end StackVM
