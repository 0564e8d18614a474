/-
Arithmetic and comparison of doubles. The four operations and the power are
those of the native type; the remainder is computed exactly from the bits.

A not-a-number operand is passed on with its quiet bit set, the left one first;
an operation without a result for numbers yields `Double.invalid`.

* `Double.rem`: the remainder of the truncated quotient;
* `Double.floorDivMod`: the quotient rounded down and the remainder with the
  sign of the divisor.
-/
import StackVM.Double.Basic

namespace StackVM

namespace Double

/-- The native number with these bits. -/
def toFloat (d : Double) : Float :=
  Float.ofBits d.bits

/-- The bits of a native number. -/
def ofFloat (f : Float) : Double :=
  ⟨f.toBits⟩

/-- The result of an operation that is not defined for its operands. -/
def invalid : Double := ⟨0xfff8000000000000⟩

/-- A not-a-number with its quiet bit set. -/
def quiet (d : Double) : Double :=
  ⟨d.bits ||| 0x0008000000000000⟩

/-- The not-a-number that an operation on `a` and `b` yields. -/
def notANumber (a b : Double) : Double :=
  if a.isNaN then a.quiet else if b.isNaN then b.quiet else invalid

/-- A native operation on bit patterns. -/
def lift (f : Float → Float → Float) (a b : Double) : Double :=
  let r := f a.toFloat b.toFloat
  if r.isNaN then notANumber a b else ofFloat r

/-- Sum. -/
def add (a b : Double) : Double := lift (· + ·) a b

/-- Difference. -/
def sub (a b : Double) : Double := lift (· - ·) a b

/-- Product. -/
def mul (a b : Double) : Double := lift (· * ·) a b

/-- Quotient. -/
def div (a b : Double) : Double := lift (· / ·) a b

/-- Power. -/
def pow (a b : Double) : Double := lift Float.pow a b

/-- Numeric equality: the zeros are equal, a not-a-number is equal to nothing. -/
def eq (a b : Double) : Bool :=
  a.toFloat == b.toFloat

/-- Numeric order; a not-a-number is below nothing. -/
def lt (a b : Double) : Bool :=
  decide (a.toFloat < b.toFloat)

/-- Numeric order or equality. -/
def le (a b : Double) : Bool :=
  decide (a.toFloat ≤ b.toFloat)

/-- The order of two doubles, if they have one. -/
def compare? (a b : Double) : Option Ordering :=
  if a.lt b then some .lt
  else if b.lt a then some .gt
  else if a.eq b then some .eq
  else none

/-- The exact remainder of `a` by `b` that has the sign of `a`. -/
def rem (a b : Double) : Double :=
  match a.unpack, b.unpack with
  | .finite negative m q, .finite _ n r =>
    if n = 0 then
      invalid
    else
      let s := min q r
      let x := (m <<< (q - s).toNat) % (n <<< (r - s).toNat)
      ofDyadic negative x s
  | .finite _ _ _, .infinite _ => a
  | _, _ => notANumber a b

/-- The quotient of `a` by a nonzero `b` rounded down, and the remainder, which
has the sign of `b`. -/
def floorDivMod (a b : Double) : Double × Double :=
  let rem₀ := a.rem b
  let div₀ := (a.sub rem₀).div b
  let (rem, div) :=
    if rem₀.eq zero then (zero.copySign b, div₀)
    else if b.lt zero != rem₀.lt zero then (rem₀.add b, div₀.sub one)
    else (rem₀, div₀)
  let quotient :=
    if div.eq zero then
      zero.copySign (a.div b)
    else
      let down := div.floor
      if (lt ⟨0x3fe0000000000000⟩ (div.sub down)) then down.add one else down
  (quotient, rem)

end Double

end StackVM
