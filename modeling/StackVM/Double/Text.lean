/-
Doubles as text.

* `Decimal.Format`: where positional notation ends and how an exponent looks;
* `Double.text`: the text of a double, its shortest decimal in a format;
* `Double.ofText?`: the double a decimal numeral, `inf` or `nan` stands for.
-/
import StackVM.Double.Arith
import StackVM.Double.Shortest

namespace StackVM

namespace Decimal

/-- How a positive decimal is laid out. -/
structure Format where
  /-- Least power of ten of the first digit in positional notation. -/
  positionalFrom : Int
  /-- Greatest power of ten of the first digit in positional notation. -/
  positionalTo : Int
  /-- Least number of digits of an exponent. -/
  exponentWidth : Nat

/-- The digits of a natural as characters. -/
def digitChars (n : Nat) : List Char :=
  Nat.toDigits 10 n

/-- `n` zeros. -/
def zeros (n : Nat) : List Char :=
  List.replicate n '0'

/-- Positional notation, with at least one digit after the point. -/
def positional (d : Decimal) : List Char :=
  let cs := digitChars d.digits
  if 0 ≤ d.exponent then
    cs ++ zeros d.exponent.toNat ++ ['.', '0']
  else
    let places := (-d.exponent).toNat
    if places < cs.length then
      cs.take (cs.length - places) ++ '.' :: cs.drop (cs.length - places)
    else
      '0' :: '.' :: zeros (places - cs.length) ++ cs

/-- Exponent notation, with a point only if there is more than one digit. -/
def scientific (f : Format) (d : Decimal) : List Char :=
  let mantissa :=
    match digitChars d.digits with
    | c :: c' :: rest => c :: '.' :: c' :: rest
    | cs => cs
  let e := digitChars d.leading.natAbs
  mantissa ++ 'e' :: (if d.leading < 0 then '-' else '+') ::
    (zeros (f.exponentWidth - e.length) ++ e)

/-- A positive decimal in a format. -/
def layout (f : Format) (d : Decimal) : List Char :=
  if f.positionalFrom ≤ d.leading ∧ d.leading ≤ f.positionalTo then
    d.positional
  else
    d.scientific f

end Decimal

namespace Double

/-- Numbers from `1e-4` and below `1e16` are positional; an exponent has a sign
and two digits. -/
def format : Decimal.Format :=
  { positionalFrom := -4, positionalTo := 15, exponentWidth := 2 }

/-- The text of a double. -/
def text (d : Double) : String :=
  let sign : List Char := if d.isNegative then ['-'] else []
  match d.unpack with
  | .nan => "nan"
  | .infinite _ => String.ofList (sign ++ "inf".toList)
  | .finite _ m q =>
    if m = 0 then String.ofList (sign ++ "0.0".toList)
    else String.ofList (sign ++ Decimal.layout format (shortest m q))

/-! ### Reading -/

/-- Value of a decimal digit. -/
def digitValue (c : Char) : Nat :=
  c.toNat - '0'.toNat

/-- Value of a list of decimal digits. -/
def digitsValue (cs : List Char) : Nat :=
  cs.foldl (fun n c => 10 * n + digitValue c) 0

/-- Number of digits of a mantissa that are kept. Doubles, and the numbers halfway
between two of them, have fewer. -/
def keptDigits : Nat := 800

/-- A row of digits as a number and the power of ten that goes with it. Digits past
those that are kept matter only in that they are not all zero: a single one stands
for them. -/
def condense (cs : List Char) : Nat × Nat :=
  let cs := cs.dropWhile (· = '0')
  let kept := digitsValue (cs.take keptDigits)
  let rest := cs.drop keptDigits
  if rest.all (· = '0') then (kept, rest.length) else (10 * kept + 1, rest.length - 1)

/-- Value of the digits of an exponent. Once it has reached `65536` the digits that
follow are passed over. -/
def exponentValue (cs : List Char) : Nat :=
  cs.foldl (fun n c => if n < 65536 then 10 * n + digitValue c else n) 0

/-- The exponent after a mantissa: nothing, or `e`, an optional sign and at least
one digit, and then the end of the text. -/
def exponentOf? : List Char → Option Int
  | [] => some 0
  | c :: rest =>
    if c = 'e' ∨ c = 'E' then
      let (negative, ds) :=
        match rest with
        | '-' :: ds => (true, ds)
        | '+' :: ds => (false, ds)
        | ds => (false, ds)
      if ds ≠ [] ∧ ds.all Char.isDigit then
        let n := exponentValue ds
        some (if negative then -(n : Int) else n)
      else
        none
    else
      none

/-- The double nearest to `± mantissa * 10 ^ exponent`. Exponents far outside the
range of doubles are settled by the size of the number alone. -/
def ofDecimal (negative : Bool) (mantissa : Nat) (exponent : Int) : Double :=
  if mantissa = 0 then withSign negative zero
  else if 400 < exponent + Decimal.digitCount mantissa then withSign negative infinity
  else if exponent + Decimal.digitCount mantissa < -400 then withSign negative zero
  else if 0 ≤ exponent then nearest negative (mantissa * Nat.pow 10 exponent.toNat) 1
  else nearest negative mantissa (Nat.pow 10 (-exponent).toNat)

/-- An unsigned numeral: digits with an optional point, at least one digit, and
an optional exponent. -/
def ofNumeral? (negative : Bool) (cs : List Char) : Option Double :=
  let whole := cs.takeWhile Char.isDigit
  let rest := cs.dropWhile Char.isDigit
  let (places, rest) :=
    match rest with
    | '.' :: r => (r.takeWhile Char.isDigit, r.dropWhile Char.isDigit)
    | r => ([], r)
  if whole = [] ∧ places = [] then
    none
  else
    (exponentOf? rest).map fun e =>
      let (mantissa, power) := condense (whole ++ places)
      ofDecimal negative mantissa (e + power - places.length)

/-- An unsigned infinity or not-a-number, in upper or lower case. -/
def ofSpecial? (negative : Bool) (cs : List Char) : Option Double :=
  let s := String.ofList (cs.map Char.toLower)
  if s = "nan" then some (withSign negative nan)
  else if s = "inf" ∨ s = "infinity" then some (withSign negative infinity)
  else none

/-- The double a text stands for: an optional sign, then a numeral or one of the
special names. -/
def ofText? (cs : List Char) : Option Double :=
  let (negative, body) :=
    match cs with
    | '-' :: r => (true, r)
    | '+' :: r => (false, r)
    | r => (false, r)
  (ofNumeral? negative body).orElse fun _ => ofSpecial? negative body

end Double

end StackVM
