/-
Calls of builtin functions and of exception classes.

* `Builtin.call`: the result of a builtin function and what it puts out;
* `ExcClass.call`: the instance that an exception class makes.
-/
import StackVM.Builtin.Aggregate
import StackVM.Builtin.Convert
import StackVM.Builtin.Print

namespace StackVM

/-- The result of an operation that leaves the heap alone. -/
def Eval.ofExcept {α : Type} : Except Cause α → Eval α
  | .ok a => pure a
  | .error c => throw c

namespace Builtin

/-- The result of a builtin function other than `print`. -/
def evaluate (b : Builtin) (args : Args) : Eval Value := do
  match b with
  | .print => return .none
  | .len => Eval.ofExcept (length (← get) (← args.one "len"))
  | .range =>
    args.checkNoKeywords "range"
    Eval.ofExcept (toRange args.positional)
  | .abs => Eval.ofExcept (absolute (← args.one "abs"))
  | .str =>
    match ← args.atMostOne "str" with
    | some v => Eval.newStr ((← get).shown v)
    | none => Eval.newStr ""
  | .repr => do
    let v ← args.one "repr"
    Eval.newStr ((← get).text v)
  | .int =>
    match ← args.atMostOne "int" with
    | some v => Eval.ofExcept (toInt v)
    | none => return .int 0
  | .float =>
    match ← args.atMostOne "float" with
    | some v => Eval.ofExcept (toFloat v)
    | none => return .float .zero
  | .bool =>
    match ← args.atMostOne "bool" with
    | some v => return .bool ((← get).truth v)
    | none => return .bool false
  | .list =>
    match ← args.atMostOne "list" with
    | some v => do Eval.newList (← v.collect)
    | none => Eval.newList #[]
  | .tuple =>
    match ← args.atMostOne "tuple" with
    | some v => do Eval.newTuple (← v.collect).toList
    | none => Eval.newTuple []
  | .min => extreme .least args
  | .max => extreme .greatest args
  | .sum => total args

/-- The result of a builtin function and what it puts out. -/
def call (b : Builtin) (args : Args) : Eval (Value × List Output) := do
  match b with
  | .print => return (.none, ← Eval.ofExcept (printed (← get) args))
  | b => return (← b.evaluate args, [])

end Builtin

/-- The instance that an exception class makes of at most one argument. -/
def ExcClass.call (c : ExcClass) (args : Args) : Eval Value := do
  match ← args.atMostOne c.name with
  | none => return .exception (← Eval.newException c none)
  | some v => return .exception (← Eval.newException c (some ((← get).shown v)))

end StackVM
