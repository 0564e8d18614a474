/-
Operators of the instruction set: the unary operators, the arithmetic and
bitwise operators that have an in-place form, the binary operators (those, the
subscript and the matrix product) and the comparisons.

* `UnaryOp.symbol`, `ArithOp.symbol`, `BinaryOp.symbol`: the spelling used in
  fault messages;
* `CompareOp.symbol`: the spelling used in listings and fault messages;
* `CompareOp.ofIndex?`: the comparison an instruction argument designates, the
  left inverse of `CompareOp.index`.
-/

namespace StackVM

/-- Operators on one operand. -/
inductive UnaryOp where
  | positive
  | negative
  | not
  | invert
deriving DecidableEq, Repr, Inhabited

/-- Operators on two operands that also have an in-place form. -/
inductive ArithOp where
  | power
  | multiply
  | modulo
  | add
  | subtract
  | floorDivide
  | trueDivide
  | lshift
  | rshift
  | and
  | xor
  | or
deriving DecidableEq, Repr, Inhabited

/-- Operators on two operands. The matrix product can be encoded but no operand
types support it. -/
inductive BinaryOp where
  | arith (op : ArithOp)
  | matrixMultiply
  | subscr
deriving DecidableEq, Repr, Inhabited

/-- The comparisons, in the order of their instruction argument. -/
inductive CompareOp where
  | lt
  | le
  | eq
  | ne
  | gt
  | ge
  | isIn
  | notIn
  | is
  | isNot
  | exceptionMatch
deriving DecidableEq, Repr, Inhabited

/-- Spelling of a unary operator in a fault message. -/
def UnaryOp.symbol : UnaryOp → String
  | .positive => "unary +"
  | .negative => "unary -"
  | .not => "not"
  | .invert => "unary ~"

/-- Spelling of an arithmetic operator in a fault message. -/
def ArithOp.symbol : ArithOp → String
  | .power => "** or pow()"
  | .multiply => "*"
  | .modulo => "%"
  | .add => "+"
  | .subtract => "-"
  | .floorDivide => "//"
  | .trueDivide => "/"
  | .lshift => "<<"
  | .rshift => ">>"
  | .and => "&"
  | .xor => "^"
  | .or => "|"

/-- Spelling of the in-place form in a fault message. -/
def ArithOp.inplaceSymbol : ArithOp → String
  | .power => "**="
  | op => op.symbol ++ "="

/-- Spelling of a binary operator in a fault message. -/
def BinaryOp.symbol : BinaryOp → String
  | .arith op => op.symbol
  | .matrixMultiply => "@"
  | .subscr => "[]"

/-- Spelling of a comparison. -/
def CompareOp.symbol : CompareOp → String
  | .lt => "<"
  | .le => "<="
  | .eq => "=="
  | .ne => "!="
  | .gt => ">"
  | .ge => ">="
  | .isIn => "in"
  | .notIn => "not in"
  | .is => "is"
  | .isNot => "is not"
  | .exceptionMatch => "exception match"

/-- All comparisons, in argument order. -/
def CompareOp.all : List CompareOp :=
  [.lt, .le, .eq, .ne, .gt, .ge, .isIn, .notIn, .is, .isNot, .exceptionMatch]

/-- The instruction argument of a comparison. -/
def CompareOp.index : CompareOp → Nat
  | .lt => 0
  | .le => 1
  | .eq => 2
  | .ne => 3
  | .gt => 4
  | .ge => 5
  | .isIn => 6
  | .notIn => 7
  | .is => 8
  | .isNot => 9
  | .exceptionMatch => 10

/-- The comparison an instruction argument designates, if any. -/
def CompareOp.ofIndex? (n : Nat) : Option CompareOp :=
  CompareOp.all[n]?

/-- The comparison with a given spelling, if any. -/
def CompareOp.ofSymbol? (s : String) : Option CompareOp :=
  CompareOp.all.find? fun op => op.symbol == s

/-- Reading the argument of a comparison gives it back. -/
@[simp] theorem CompareOp.ofIndex?_index (op : CompareOp) :
    CompareOp.ofIndex? op.index = some op := by
  cases op <;> rfl

end StackVM
