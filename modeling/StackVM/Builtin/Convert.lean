/-
Builtin functions that make a value of one type from another.

* `Builtin.toInt`, `Builtin.toFloat`: numbers from numbers and text;
* `Builtin.toRange`: a range from one to three integers;
* `Builtin.length`, `Builtin.absolute`.
-/
import StackVM.Call.Args
import StackVM.Iteration
import StackVM.Text.Numeral
import StackVM.Value.Size
import StackVM.Value.Text

namespace StackVM

namespace Builtin

/-- The integer part of a float. -/
def truncated (d : Double) : Except Cause Value :=
  match d.truncate? with
  | some i =>
    if -0x8000000000000000 ≤ i ∧ i < 0x8000000000000000 then .ok (.int (Int64.ofInt i))
    else .error .intOverflow
  | none => .error (if d.isNaN then .nanToInt else .infinityToInt)

/-- The integer of a value: floats lose their fraction, text is read. -/
def toInt : Value → Except Cause Value
  | .int i => .ok (.int i)
  | .bool b => .ok (.int (if b then 1 else 0))
  | .float d => truncated d
  | .str _ s =>
    match Numeral.read s with
    | .ok i => .ok (.int i)
    | .error .overflow => .error .intOverflow
    | .error .malformed => .error (.badIntNumeral s)
  | v => .error (.noIntConversion v.typeTag)

/-- The float of a value: integers are rounded, text is read. -/
def toFloat : Value → Except Cause Value
  | .str _ s =>
    match Double.ofText? (Text.strip s.toList) with
    | some d => .ok (.float d)
    | none => .error (.badFloatNumeral s)
  | v =>
    match v.asDouble? with
    | some d => .ok (.float d)
    | none => .error (.noFloatConversion v.typeTag)

/-- The integers among values, which must be all of them. -/
def integers : List Value → Except Cause (List Int64)
  | [] => .ok []
  | v :: vs =>
    match v.asInt? with
    | none => .error (.notInteger v.typeTag)
    | some i => (integers vs).map (i :: ·)

/-- The range with a stop, a start and a stop, or a start, a stop and a step. -/
def toRange (args : List Value) : Except Cause Value := do
  match ← integers args with
  | [] => throw (.tooFewArguments "range" 1 0)
  | [stop] => return .range (.upTo 0 stop)
  | [start, stop] => return .range (.upTo start stop)
  | [start, stop, step] =>
    match Range.make? start stop step with
    | some r => return .range r
    | none => throw .zeroRangeStep
  | is => throw (.tooManyArguments "range" 3 is.length)

/-- The absolute value of a number. -/
def absolute : Value → Except Cause Value
  | .int i =>
    if i.toInt.natAbs < 0x8000000000000000 then .ok (.int (Int64.ofNat i.toInt.natAbs))
    else .error .intOverflow
  | .float d => .ok (.float d.abs)
  | .bool b => .ok (.int (if b then 1 else 0))
  | v => .error (.noAbsoluteValue v.typeTag)

/-- The number of items of a value. -/
def length (h : Heap) (v : Value) : Except Cause Value :=
  match h.len? v with
  | some n =>
    if n < 0x8000000000000000 then .ok (.int (Int64.ofNat n)) else .error .intOverflow
  | none => .error (.noLength v.typeTag)

end Builtin

end StackVM
