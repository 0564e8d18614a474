/-
What each instruction does. An instruction that changes control beyond a jump
returns the signal for it.

* `Const.load`: the value of a constant;
* `Exec.execute`: the effect of a decoded instruction.
-/
import StackVM.Comparison
import StackVM.Machine.Call

namespace StackVM

mutual

/-- The value of the constant at a path of the pool of `owner`. Strings and code
objects are the same objects at every load; a tuple is made anew. -/
def Const.load (owner : Ident) (path : List Nat) : Const → Eval Value
  | .none => pure .none
  | .bool b => pure (.bool b)
  | .int i => pure (.int i)
  | .float d => pure (.float d)
  | .str s => pure (.str (.pooled owner path) s)
  | .tuple items => do
    Eval.newTuple (← Const.loadAll owner path 0 items)
  | .code c => pure (.code ⟨.pooled owner path, c⟩)
termination_by structural c => c

/-- The values of constants from position `i` of a path on. -/
def Const.loadAll (owner : Ident) (path : List Nat) (i : Nat) : List Const → Eval (List Value)
  | [] => pure []
  | c :: cs => do
    let v ← Const.load owner (i :: path) c
    return v :: (← Const.loadAll owner path (i + 1) cs)
termination_by structural cs => cs

end

/-! ### Variables -/

/-- The fault of a name that has no value. -/
def Scope.unbound : Scope → String → Cause
  | .fast, x => .unboundLocal x
  | _, x => .undefinedName x

namespace Frame

/-- The value of a variable: among the locals, the globals and the builtins, as far
as the scope reaches. -/
def lookup? (f : Frame) (h : Heap) (scope : Scope) (name : String) : Option Value :=
  match scope with
  | .name =>
    (h.lookup f.locals name).or ((h.lookup f.globals name).or (h.lookup f.builtins name))
  | .global => (h.lookup f.globals name).or (h.lookup f.builtins name)
  | .fast => h.lookup f.locals name

/-- The namespace in which a scope binds names. -/
def binds (f : Frame) : Scope → Ref .namespace
  | .global => f.globals
  | _ => f.locals

end Frame

namespace Exec

/-- Pushes the value of a variable. -/
def loadVariable (scope : Scope) (name : String) : Exec Unit := do
  match (← frame).lookup? (← heap) scope name with
  | some v => push v
  | none => fail (scope.unbound name)

/-- Binds a variable to the top value. -/
def storeVariable (scope : Scope) (name : String) : Exec Unit := do
  let v ← pop
  let r := (← frame).binds scope
  Eval.modifyNames r (·.set name v)

/-- Unbinds a variable. -/
def deleteVariable (scope : Scope) (name : String) : Exec Unit := do
  let r := (← frame).binds scope
  if ((← heap).names r).contains name then Eval.modifyNames r (·.erase name)
  else fail (scope.unbound name)

/-! ### Cells -/

/-- The cell at an index. -/
def cellAt (index : Nat) : Exec (Ref .cell) := do
  match (← frame).cells[index]? with
  | some r => return r
  | none => failInternal .cellOutOfRange

/-- Pushes the content of a cell. -/
def loadCell (index : Nat) : Exec Unit := do
  match (← heap).cell (← cellAt index) with
  | some v => push v
  | none =>
    match (← frame).code.code.cellName? index with
    | some name => fail (.unboundFree name)
    | none => failInternal .cellOutOfRange

/-- Assigns the top value to a cell. -/
def storeCell (index : Nat) : Exec Unit := do
  let v ← pop
  Eval.setCell (← cellAt index) v

/-! ### Stack and collections -/

/-- Moves the top value below the `n - 1` values under it. -/
def rotate (n : Nat) : Exec Unit := do
  match (← frame).rotate? n with
  | some f => modifyFrame fun _ => f
  | none => failInternal .stackUnderflow

/-- Stores a key and a value in the dict under them, which stays. -/
def storeMap : Exec Unit := do
  let key ← pop
  let value ← pop
  match ← peek with
  | .dict r => Value.setItem (.dict r) key value
  | v => fail (.notADict v.typeTag)

/-- The items of a value to be unpacked. -/
def unpacked : Value → Exec (List Value)
  | .tuple _ items => pure items
  | .list r => do return ((← heap).list r).toList
  | v => do
    let items ← v.collect
    return items.toList

/-- Pushes the items of the top value, which must be `count`, the first one last. -/
def unpackSequence (count : Nat) : Exec Unit := do
  let items ← unpacked (← pop)
  if items.length < count then fail (.unpackTooFew count items.length)
  else if count < items.length then fail (.unpackTooMany count)
  else modifyFrame fun f => { f with stack := items ++ f.stack }

/-- Replaces the top value by an iterator over it; an iterator stays. -/
def getIter : Exec Unit := do
  match ← pop with
  | .iter r => push (.iter r)
  | v =>
    let it ← v.iterator
    push (← Eval.newIter it)

/-- Pushes the next item of the iterator on top, or pops it at its end and jumps. -/
def forIter (exit : Nat) : Exec Unit := do
  match ← peek with
  | .iter r =>
    match ← ((← heap).iter r).next with
    | some (v, it) =>
      Eval.setIter r it
      push v
    | none =>
      discard pop
      jump exit
  | v => fail (.notAnIterator v.typeTag)

/-! ### Blocks -/

/-- Opens a block. -/
def setupBlock (kind : BlockKind) (handler : Nat) : Exec Unit :=
  modifyFrame fun f => { f with blocks := ⟨kind, handler, f.stack.length⟩ :: f.blocks }

/-- Closes the innermost block. The body of a finally block then runs with nothing
waiting for its end. -/
def popBlock : Exec Unit := do
  match (← frame).blocks with
  | [] => fail (.noMatchingBlock "POP_BLOCK")
  | b :: below =>
    modifyFrame fun f =>
      match b.kind with
      | .finally => { f with blocks := ⟨.cleanup .none, b.handler, f.stack.length⟩ :: below }
      | _ => { f with blocks := below }

/-- Closes the cleanup block on top and gives what waited for its end. -/
def popCleanup (op : String) : Exec Pending := do
  match (← frame).blocks with
  | ⟨.cleanup pending, _, level⟩ :: below =>
    modifyFrame fun f => { f with blocks := below, stack := Frame.cut f.stack level }
    return pending
  | _ => fail (.noMatchingBlock op)

/-- Takes up the signal that waited for the end of a handler. -/
def endFinally : Exec (Option Signal) := do
  match ← popCleanup "END_FINALLY" with
  | .none => return none
  | .returning v =>
    modify fun m => { m with registers.result := some v }
    return some .returning
  | .raising r =>
    modify fun m => { m with registers.raised := some r }
    return some .raising
  | .breaking => return some .breaking
  | .continuing target => return some (.continuing target)

/-! ### Exceptions -/

/-- The instance that a raised value stands for: itself, or one that the class
makes. -/
def instantiate (v : Value) (arg : Option Value) : Exec ExcObject :=
  match v with
  | .exception e => pure e
  | .excClass c => do
    match ← c.call { positional := arg.toList } with
    | .exception e => return e
    | _ => failInternal .notAnInstance
  | _ => fail .notAnException

/-- Raises the exception whose handler is running, or one that is made from the top
values. -/
def raiseVarargs (count : Nat) : Exec (Option Signal) := do
  match count with
  | 0 =>
    match (← get).frames.findSome? Frame.handled? with
    | some r =>
      modify fun m => { m with registers.raised := some r }
      return some .raising
    | none => fail .nothingToReraise
  | 1 =>
    let v ← pop
    throw (.thrown (← instantiate v none))
  | 2 =>
    let arg ← pop
    let v ← pop
    throw (.thrown (← instantiate v (some arg)))
  | n => fail (.badInstructionOperand "RAISE_VARARGS" (toString n))

/-! ### Instructions -/

/-- The operand that an instruction must have. -/
@[inline] def operand {α : Type} (i : Instruction) (found : Option α) : Exec α :=
  match found with
  | some a => pure a
  | none => failInternal (.unexpectedOperand i.offset)

end Exec

namespace Operand

/-- The constant. -/
def const? : Operand → Option Const
  | .const c => some c
  | _ => .none

/-- The name of a variable in a scope. -/
def variableName? : Scope → Operand → Option String
  | .fast, .local s => some s
  | .name, .name s => some s
  | .global, .name s => some s
  | _, _ => .none

/-- The index of a cell. -/
def cell? : Operand → Option Nat
  | .free index => some index
  | _ => .none

/-- The target of a jump. -/
def target? : Operand → Option Nat
  | .jump target => some target
  | _ => .none

/-- The comparison. -/
def comparison? : Operand → Option CompareOp
  | .compare op => some op
  | _ => .none

end Operand

namespace Exec

/-- Executes a decoded instruction that asks for no change of control beyond a
jump. The matrix product is not supported by any values. -/
def perform (code : CodeObject) (i : Instruction) (op : Opcode) : Exec Unit := do
  match op with
  | .nop => pure ()
  | .popTop => discard pop
  | .dupTop => push (← peek)
  | .rotTwo => rotate 2
  | .rotThree => rotate 3
  | .rotFour => rotate 4
  | .unary op =>
    let v ← pop
    push (← v.unary op)
  | .binary (.arith op) =>
    let r ← pop
    let l ← pop
    push (← l.binary op r)
  | .binary .subscr =>
    let key ← pop
    let v ← pop
    push (← v.getItem key)
  | .inplace op =>
    let r ← pop
    let l ← pop
    push (← l.inplace op r)
  | .compare =>
    let op ← operand i i.operand.comparison?
    let r ← pop
    let l ← pop
    push (.bool (← l.compareOp op r))
  | .loadConst =>
    let c ← operand i i.operand.const?
    push (← c.load code.ident [i.arg])
  | .load scope => loadVariable scope (← operand i (i.operand.variableName? scope))
  | .store scope => storeVariable scope (← operand i (i.operand.variableName? scope))
  | .delete scope => deleteVariable scope (← operand i (i.operand.variableName? scope))
  | .loadClosure => push (.cell (← cellAt (← operand i i.operand.cell?)))
  | .loadDeref => loadCell (← operand i i.operand.cell?)
  | .storeDeref => storeCell (← operand i i.operand.cell?)
  | .buildTuple =>
    let items ← popN i.arg
    push (← Eval.newTuple items)
  | .buildList =>
    let items ← popN i.arg
    push (← Eval.newList items.toArray)
  | .buildMap => push (← Eval.newDict .empty)
  | .storeMap => storeMap
  | .storeSubscr =>
    let key ← pop
    let v ← pop
    let value ← pop
    v.setItem key value
  | .deleteSubscr =>
    let key ← pop
    let v ← pop
    v.deleteItem key
  | .unpackSequence => unpackSequence i.arg
  | .getIter => getIter
  | .forIter => forIter (← operand i i.operand.target?)
  | .jumpForward | .jumpAbsolute => jump (← operand i i.operand.target?)
  | .popJumpIf cond =>
    let target ← operand i i.operand.target?
    let v ← pop
    if (← heap).truth v = cond then jump target
  | .jumpIfOrPop cond =>
    let target ← operand i i.operand.target?
    if (← heap).truth (← peek) = cond then jump target else discard pop
  | .setup block => setupBlock (.ofSetup block) (← operand i i.operand.target?)
  | .popBlock => popBlock
  | .popExcept => discard (popCleanup "POP_EXCEPT")
  | .callFunction => callFunction i.arg
  | .makeFunction => makeFunction i.arg false
  | .makeClosure => makeFunction i.arg true
  | _ => fail (.unknownOpcode i.byte (some op.name))

/-- Executes a decoded instruction of a known opcode. -/
def executeOp (code : CodeObject) (i : Instruction) (op : Opcode) : Exec (Option Signal) :=
  match op with
  | .endFinally => endFinally
  | .breakLoop => pure (some .breaking)
  | .continueLoop => do return some (.continuing (← operand i i.operand.target?))
  | .returnValue => do
    let v ← pop
    modify fun m => { m with registers.result := some v }
    return some .returning
  | .raiseVarargs => raiseVarargs i.arg
  | op => do
    perform code i op
    return none

/-- Executes a decoded instruction. -/
@[inline] def execute (code : CodeObject) (i : Instruction) : Exec (Option Signal) :=
  match i.opcode with
  | some op => executeOp code i op
  | none => fail (.unknownOpcode i.byte none)

end Exec

end StackVM
