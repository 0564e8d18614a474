/-
The shortest decimal of a double: of the decimals that are read back as the
double, one with the fewest digits, and of those the nearest. A tie between two
goes up.

* `Decimal`: a natural of digits and a power of ten;
* `Double.shortest`: the decimal of a positive `mantissa * 2 ^ scale`.
-/
import StackVM.Double.Basic

namespace StackVM

/-- The number `digits * 10 ^ exponent`. -/
structure Decimal where
  digits : Nat
  exponent : Int
deriving DecidableEq, Repr, Inhabited

namespace Decimal

/-- Number of decimal digits of a positive natural. -/
def digitCount (n : Nat) : Nat :=
  (Nat.toDigits 10 n).length

/-- Drops trailing zeros, at most `fuel` of them. -/
def trimAux : Nat → Decimal → Decimal
  | 0, d => d
  | fuel + 1, d =>
    if d.digits % 10 = 0 then trimAux fuel ⟨d.digits / 10, d.exponent + 1⟩ else d

/-- The same positive number without trailing zeros. -/
def trim (d : Decimal) : Decimal :=
  trimAux (digitCount d.digits) d

/-- The power of ten of the first digit. -/
def leading (d : Decimal) : Int :=
  d.exponent + digitCount d.digits - 1

/-- The power of ten of the first digit of a positive fraction. -/
def leadingOfRatio (num den : Nat) : Int :=
  if den ≤ num then
    (digitCount (num / den) : Int) - 1
  else
    -(digitCount ((den + num - 1) / num - 1) : Int)

end Decimal

namespace Double

/-- An interval of positive fractions `low / den` to `high / den` around
`value / den`, with its ends or without them. -/
structure Interval where
  low : Nat
  value : Nat
  high : Nat
  den : Nat
  closed : Bool

/-- The numbers that are read back as `mantissa * 2 ^ scale`. Below a power of
two the doubles are twice as close, the smallest exponent apart. -/
def interval (mantissa : Nat) (scale : Int) : Interval :=
  let near := mantissa = 0x10000000000000 ∧ -1074 < scale
  let (unit, den) := descale 1 1 (2 - scale)
  { low := (4 * mantissa - if near then 1 else 2) * unit
    value := 4 * mantissa * unit
    high := (4 * mantissa + 2) * unit
    den := den
    closed := mantissa % 2 = 0 }

/-- The fraction divided by `10 ^ k`, as a fraction again. -/
def descaleTen (num den : Nat) (k : Int) : Nat × Nat :=
  if 0 ≤ k then (num, den * Nat.pow 10 k.toNat) else (num * Nat.pow 10 (-k).toNat, den)

/-- The multiple of `10 ^ k` in the interval that is nearest to its value, if
there is one; a tie goes up. -/
def Interval.nearestAt? (i : Interval) (k : Int) : Option Decimal :=
  let (v, d) := descaleTen i.value i.den k
  let (lo, _) := descaleTen i.low i.den k
  let (hi, _) := descaleTen i.high i.den k
  let below := v / d
  let above := below + 1
  let r := v % d
  let hitBelow := r = 0 ∨ lo < below * d ∨ (i.closed ∧ lo = below * d)
  let hitAbove := above * d < hi ∨ (i.closed ∧ above * d = hi)
  if hitBelow ∧ (2 * r < d ∨ ¬hitAbove) then some ⟨below, k⟩
  else if hitAbove then some ⟨above, k⟩
  else none

/-- The first hit on finer and finer decimal grids. -/
def Interval.search (i : Interval) : Nat → Int → Decimal
  | 0, k => ⟨i.value / i.den, k⟩
  | fuel + 1, k =>
    match i.nearestAt? k with
    | some d => d
    | none => i.search fuel (k - 1)

/-- The shortest decimal of the positive number `mantissa * 2 ^ scale`. Seventeen
digits tell all doubles apart. -/
def shortest (mantissa : Nat) (scale : Int) : Decimal :=
  let i := interval mantissa scale
  (i.search 17 (Decimal.leadingOfRatio i.value i.den)).trim

end Double

end StackVM
