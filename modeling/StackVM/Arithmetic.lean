/-
The operators. Integers are exact or refused: a result outside the 64 bits is a
fault, never wrapped. A number that meets a float becomes one. Strings, tuples and
lists can be joined and repeated; a list grows in place under `+=`.

* `ArithOp.onInts`, `ArithOp.onFloats`: the operators on numbers;
* `Value.binary`, `Value.inplace`, `Value.unary`: the operators on values.
-/
import StackVM.Iteration
import StackVM.Operator
import StackVM.Value.Size
import StackVM.Word

namespace StackVM

/-! ### Numbers -/

/-- A word as a value; without one, the result had too many bits. -/
def checked : Option Int64 → Except Cause Value
  | some i => .ok (.int i)
  | none => .error .intOverflow

/-- An integer as a value, if it has 64 bits. -/
def checkedInt (i : Int) : Except Cause Value :=
  checked (Word.ofInt? i)

/-- Quotient of doubles. -/
def trueQuotient (a b : Double) : Except Cause Value :=
  if b.isZero then .error .zeroDivision else .ok (.float (a.div b))

namespace ArithOp

/-- An operator on integers. A quotient or a shift is only computed where it overflows
nothing: all other operands are set apart first. -/
def onInts [WordDivision] (op : ArithOp) (a b : Int64) : Except Cause Value :=
  let x := a.toInt
  let y := b.toInt
  match op with
  | .add => checkedInt (x + y)
  | .subtract => checkedInt (x - y)
  | .multiply => checkedInt (x * y)
  | .floorDivide =>
    if b = 0 then .error .zeroIntDivision
    else if a = Int64.minValue ∧ b = -1 then .error .intOverflow
    else .ok (.int (WordDivision.divFloor a b))
  | .modulo =>
    if b = 0 then .error .zeroIntModulo
    else if b = -1 then .ok (.int 0)
    else .ok (.int (WordDivision.modFloor a b))
  | .trueDivide => trueQuotient (.ofInt x) (.ofInt y)
  | .power =>
    if b < 0 then
      if a = 0 then .error .zeroNegativePower
      else .ok (.float ((Double.ofInt x).pow (.ofInt y)))
    else
      match Word.toNat32? b with
      | some n => checked (Word.pow? a n)
      | none =>
        -- only the powers of these three stay small
        if a = 0 ∨ a = 1 then .ok (.int a)
        else if a = -1 then .ok (.int (if WordDivision.isEven b then 1 else -1))
        else .error .intOverflow
  | .lshift =>
    if b < 0 then .error .negativeShift
    else if a = 0 then .ok (.int 0)
    else if 64 ≤ Word.shiftCount b then .error .intOverflow
    else checkedInt (Word.shiftLeft a (Word.shiftCount b)).toInt
  | .rshift =>
    if b < 0 then .error .negativeShift
    else if 64 ≤ Word.shiftCount b then .ok (.int (if a < 0 then -1 else 0))
    else .ok (.int (Word.shiftRight a (Word.shiftCount b)))
  | .and => .ok (.int (a &&& b))
  | .xor => .ok (.int (a ^^^ b))
  | .or => .ok (.int (a ||| b))

/-- An operator on floats, if it takes them. -/
def onFloats (op : ArithOp) (a b : Double) : Option (Except Cause Value) :=
  match op with
  | .add => some (.ok (.float (a.add b)))
  | .subtract => some (.ok (.float (a.sub b)))
  | .multiply => some (.ok (.float (a.mul b)))
  | .trueDivide => some (trueQuotient a b)
  | .floorDivide =>
    some (if b.isZero then .error .zeroFloatFloorDivision else .ok (.float (a.floorDivMod b).1))
  | .modulo =>
    some (if b.isZero then .error .zeroFloatModulo else .ok (.float (a.floorDivMod b).2))
  | .power =>
    some (if a.isZero && b.lt .zero then .error .zeroNegativePower else .ok (.float (a.pow b)))
  | .lshift | .rshift | .and | .xor | .or => none

/-- An operator on truth values, if the result is one. -/
def onBools (op : ArithOp) (a b : Bool) : Option Bool :=
  match op with
  | .and => some (a && b)
  | .xor => some (a ^^ b)
  | .or => some (a || b)
  | _ => none

/-- An operator on values that are numbers, if it takes them. -/
def onNumbers [WordDivision] (op : ArithOp) (l r : Value) : Option (Except Cause Value) :=
  match l.asInt?, r.asInt? with
  | some a, some b => some (op.onInts a b)
  | _, _ =>
    match l.asDouble?, r.asDouble? with
    | some a, some b => op.onFloats a b
    | _, _ => none

/-- An operator on truth values or numbers, if it takes them. -/
def onScalars [WordDivision] (op : ArithOp) (l r : Value) : Option (Except Cause Value) :=
  match l, r with
  | .bool a, .bool b =>
    match op.onBools a b with
    | some c => some (.ok (.bool c))
    | none => op.onNumbers l r
  | _, _ => op.onNumbers l r

end ArithOp

/-! ### Sequences -/

/-- Refuses `count` copies of `size` items if they are too many. A number of more
than 64 bits is reported as the largest number of 64 bits. -/
def checkRepeated (size count itemBytes : Nat) : Except LimitError Unit :=
  let total := size * count
  if total < UInt64.size then checkSequence total itemBytes
  else .error (.sequence (UInt64.size - 1))

/-- Puts `count` copies of a list in front of another. -/
def repeatOnto (items : List Value) : Nat → List Value → List Value
  | 0, rest => rest
  | n + 1, rest => repeatOnto items n (items ++ rest)

/-- `count` copies of a list. -/
def repeatItems (items : List Value) (count : Nat) : List Value :=
  if items.isEmpty then [] else repeatOnto items count []

/-- `count` copies of a text, put together from twice half as many. -/
def repeatText (s : String) (count : Nat) : String :=
  if count = 0 then
    ""
  else
    let half := repeatText s (count / 2)
    if count % 2 = 0 then half ++ half else half ++ half ++ s

namespace Value

/-- A sequence repeated, if the value is one. A negative count gives no copies. -/
def repeated (seq : Value) (count : Int64) : Eval (Option Value) := do
  let n := count.toInt.toNat
  match seq with
  | .str _ s =>
    Eval.ofLimit (checkRepeated s.utf8ByteSize n 1)
    return some (← Eval.newStr (repeatText s n))
  | .list r =>
    let items := (← get).list r
    Eval.ofLimit (checkRepeated items.size n valueBytes)
    return some (← Eval.newList (repeatItems items.toList n).toArray)
  | .tuple _ items =>
    Eval.ofLimit (checkRepeated items.length n valueBytes)
    return some (← Eval.newTuple (repeatItems items n))
  | _ => return Option.none

/-- Two sequences joined, if they are of one type. -/
def joined (l r : Value) : Eval (Option Value) := do
  match l, r with
  | .str _ s, .str _ t => return some (← Eval.newStr (s ++ t))
  | .list a, .list b => return some (← Eval.newList ((← get).list a ++ (← get).list b))
  | .tuple _ xs, .tuple _ ys => return some (← Eval.newTuple (xs ++ ys))
  | _, _ => return Option.none

/-- An operator on sequences, if it takes them. -/
def onSequences (op : ArithOp) (l r : Value) : Eval (Option Value) :=
  match op with
  | .add => l.joined r
  | .multiply =>
    match r.asInt?, l.asInt? with
    | some n, _ => l.repeated n
    | Option.none, some n => r.repeated n
    | Option.none, Option.none => pure Option.none
  | _ => pure Option.none

/-! ### Values -/

/-- An operator on two values, if it takes them. -/
def arith? [WordDivision] (op : ArithOp) (l r : Value) : Eval (Option Value) :=
  match op.onScalars l r with
  | some (.ok v) => pure (some v)
  | some (.error c) => throw c
  | Option.none => onSequences op l r

/-- An operator on two values; a fault names it by `symbol`. -/
def arith [WordDivision] (op : ArithOp) (symbol : String) (l r : Value) : Eval Value := do
  match ← arith? op l r with
  | some v => return v
  | Option.none => throw (.badOperands symbol l.typeTag r.typeTag)

/-- An operator on two values. -/
def binary [WordDivision] (op : ArithOp) (l r : Value) : Eval Value :=
  arith op op.symbol l r

/-- Puts the items of `r` at the end of a list. They are collected first, so that a
list can be put at its own end. -/
def extend (dest : Ref .list) (r : Value) : Eval Unit := do
  let items ← r.collect
  Eval.ofLimit (checkSequence (((← get).list dest).size + items.size) valueBytes)
  Eval.modifyList dest (· ++ items)

/-- The in-place form of an operator. A list grows under `+=`; all else is as for
`Value.binary`. -/
def inplace [WordDivision] (op : ArithOp) (l r : Value) : Eval Value :=
  match op, l with
  | .add, .list dest => do
    extend dest r
    return l
  | _, _ => arith op op.inplaceSymbol l r

/-- An operator on one value. -/
def unary (op : UnaryOp) (v : Value) : Eval Value := do
  match op, v with
  | .not, _ => return .bool (!(← get).truth v)
  | .positive, .float d => return .float d
  | .negative, .float d => return .float d.neg
  | _, _ =>
    match v.asInt? with
    | Option.none => throw (.badOperand op.symbol v.typeTag)
    | some i =>
      match op with
      | .negative =>
        match checkedInt (-i.toInt) with
        | .ok r => return r
        | .error c => throw c
      | .invert => return .int (~~~i)
      | _ => return .int i

end Value

end StackVM
