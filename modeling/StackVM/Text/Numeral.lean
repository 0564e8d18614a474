/-
Integers read from text: blanks around it are dropped, underscores anywhere, and
what is left is a sign, which may be absent, and digits.

* `Numeral.digits`: a row of digits as a number, up to a bound;
* `Numeral.read`: the integer that a text stands for.
-/
import StackVM.Text.Blank

namespace StackVM

namespace Numeral

/-- Why a text stands for no 64-bit integer. -/
inductive Fault where
  | malformed
  | overflow
deriving DecidableEq, Repr, Inhabited

/-- The number that digits after those of `value` stand for. Reading stops at the
first character that is no digit and at the first digit that takes the number over
`bound`, whatever comes after it. -/
def digits (bound : Nat) : Nat → List Char → Except Fault Nat
  | value, [] => .ok value
  | value, c :: cs =>
    if c.isDigit then
      let value := value * 10 + (c.toNat - '0'.toNat)
      if bound < value then .error .overflow else digits bound value cs
    else
      .error .malformed

/-- A row of digits, at least one. -/
def unsigned (bound : Nat) : List Char → Except Fault Nat
  | [] => .error .malformed
  | cs => digits bound 0 cs

/-- Digits after a sign that may be absent. -/
def signed : List Char → Except Fault Int64
  | '-' :: cs => (unsigned 0x8000000000000000 cs).map fun n => Int64.ofInt (-n)
  | '+' :: cs => (unsigned 0x7fffffffffffffff cs).map fun n => Int64.ofNat n
  | cs => (unsigned 0x7fffffffffffffff cs).map fun n => Int64.ofNat n

/-- The integer that a text stands for. -/
def read (s : String) : Except Fault Int64 :=
  signed ((Text.strip s.toList).filter (· ≠ '_'))

end Numeral

end StackVM
