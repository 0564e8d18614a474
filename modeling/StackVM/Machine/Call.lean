/-
Calls and the making of functions.

* `Frame.make`: the frame of a code object;
* `Exec.enter`: enters a frame, unless the limit of active ones is reached;
* `Exec.callFunction`, `Exec.makeFunction`: the instructions.
-/
import StackVM.Builtin.Call
import StackVM.Call.Signature
import StackVM.Machine.State

namespace StackVM

/-- New cells with the given contents. -/
def Eval.newCells : List (Option Value) → Eval (List (Ref .cell))
  | [] => pure []
  | content :: contents => do
    let cell ← newCell content
    return cell :: (← newCells contents)

/-- The globals of a program that is run on its own. -/
def Eval.newMain : Eval (Ref .namespace) := do
  let name ← newStr "__main__"
  newNamespace (.ofList [("__name__", name), ("__doc__", .none), ("__package__", .none)])

/-- The frame of a code object. Without globals it gets those of a new program,
and without locals its globals are its locals. Captured locals get new cells, which
hold the values they already have; the closure gives the other cells, and empty
ones make up for those it lacks. No room is set aside for the operands, so that a stack
size beyond all memory is not refused here. -/
def Frame.make (code : CodeObject) (globals locals : Option (Ref .namespace))
    (builtins : Ref .namespace) (closure : List (Ref .cell)) : Eval Frame := do
  let globals ←
    match globals with
    | some r => pure r
    | none => Eval.newMain
  let locals := locals.getD globals
  let names := (← get).names locals
  let own ← Eval.newCells (code.code.cellvars.toList.map names.get?)
  let free := closure.take code.code.freevars.size
  let lacking ← Eval.newCells (List.replicate (code.code.freevars.size - free.length) none)
  return { code, locals, globals, builtins, cells := own ++ free ++ lacking }

namespace Exec

/-- Enters a frame, unless the limit of active frames is reached. -/
def enter (f : Frame) : Exec Unit := do
  let depth := (← get).calls.depth
  match (← get).limits.checkDepth depth with
  | .error e => fail e.cause
  | .ok () =>
    modify fun m =>
      { m.record (.enter f.code.code.name (depth + 1)) with calls := m.calls.push f }

/-- Binds arguments to the parameters of a function and enters its frame. -/
def enterFunction (f : Function) (args : Args) : Exec Unit := do
  let code := f.code.code
  let bound ← code.signature.bind code.name f.defaults f.kwdefaults args
  let locals ← Eval.newNamespace (.ofList bound)
  let builtins := (← frame).builtins
  enter (← Frame.make f.code (some f.globals) (some locals) builtins f.closure)

/-- The counts that the two low bytes of an argument give. -/
def splitCounts (arg : Nat) : Nat × Nat :=
  (arg % 256, arg / 256 % 256)

/-- Calls what lies under the arguments. A function gets a frame; anything else
that can be called is evaluated at once. -/
def callFunction (arg : Nat) : Exec Unit := do
  let (positional, keywords) := splitCounts arg
  let keywords ← ofExcept (Keyword.ofPairs (← popN (2 * keywords)))
  let positional ← popN positional
  let args : Args := { positional, keywords }
  match ← pop with
  | .function r => enterFunction ((← heap).function r) args
  | .builtin b =>
    let (v, os) ← b.call args
    put os
    push v
  | .excClass c => push (← c.call args)
  | v => fail (.notCallable v.typeTag)

/-- The cells among values, which must be all of them. -/
def cells : List Value → Except Cause (List (Ref .cell))
  | [] => .ok []
  | .cell r :: vs => (cells vs).map (r :: ·)
  | v :: _ => .error (.badInstructionOperand "MAKE_CLOSURE" v.typeTag.name)

/-- Pops the cells of a closure for a code object. -/
def popClosure (code : Code) : Exec (List (Ref .cell)) := do
  match ← pop with
  | .tuple _ items =>
    let closure ← ofExcept (cells items)
    if closure.length = code.freevars.size then return closure
    else fail (.badClosureSize code.name code.freevars.size closure.length)
  | v => fail (.badInstructionOperand "MAKE_CLOSURE" v.typeTag.name)

/-- Makes a function of code and captured cells, with the defaults on top of the stack. -/
def pushFunction (code : CodeObject) (arg : Nat) (closure : List (Ref .cell)) : Exec Unit := do
  let (defaults, kwdefaults) := splitCounts arg
  let kwdefaults ← ofExcept (Keyword.ofPairs (← popN (2 * kwdefaults)))
  let defaults ← popN defaults
  let globals := (← frame).globals
  let kwdefaults := kwdefaults.map fun k => (k.name, k.value)
  let f ← Eval.newFunction { code, defaults, kwdefaults, globals, closure }
  push f

/-- Makes a function of the code on top of the stack, the cells under it if it is a
closure, and the defaults under those. -/
def makeFunction (arg : Nat) (isClosure : Bool) : Exec Unit := do
  match ← pop with
  | .code code =>
    let closure ← if isClosure then popClosure code.code else pure []
    pushFunction code arg closure
  | v => fail (.notACode v.typeTag)

end Exec

end StackVM
