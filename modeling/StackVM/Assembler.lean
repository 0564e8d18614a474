/-
Assembling code objects from directives. The assembler interns constants and
names into the tables, writes instructions, remembers jumps to labels that may be
bound later, and tracks the declared depth of the operand stack.

A directive never fails at once: the first problem is kept and reported when the
code object is built, and what is rejected writes no bytes.

* `Directive`: one call on the assembler;
* `Assembler.apply`: its effect;
* `Assembler.build`: patches the jumps and gives the code object;
* `assemble`: a whole list of directives.
-/
import StackVM.Instruction

namespace StackVM

/-- Why directives do not give a code object. -/
inductive BuildError where
  /-- An opcode was written with an argument it does not take, or without one. -/
  | argumentMismatch (op : Opcode)
  /-- A jump was written with an opcode that does not jump, or as a plain
  argument. -/
  | notAJump (op : Opcode)
  | unboundLabel
  | labelRebound
  /-- A relative jump at `pos` leads backward. -/
  | backwardRelativeJump (pos : Nat)
  /-- The argument of the jump at `pos` does not fit in two bytes. -/
  | jumpTooFar (pos : Nat)
  /-- A variable is neither a cell nor a free variable. -/
  | unknownCell (name : String)
  /-- Parameters come before all other locals. -/
  | paramsAfterLocals
  /-- Kinds of parameters come in a fixed order. -/
  | paramOrder
deriving DecidableEq, Repr, Inhabited

/-- The text of a build error. -/
def BuildError.message : BuildError → String
  | .argumentMismatch op => s!"wrong argument form for {op.name}"
  | .notAJump op => s!"{op.name} is not a jump"
  | .unboundLabel => "jump to a label that was never bound"
  | .labelRebound => "label bound twice"
  | .backwardRelativeJump p => s!"backward relative jump at offset {p}"
  | .jumpTooFar p => s!"jump at offset {p} does not fit in two bytes"
  | .unknownCell name => s!"'{name}' is neither a cell nor a free variable"
  | .paramsAfterLocals => "parameters declared after other locals"
  | .paramOrder => "parameter kinds declared out of order"

/-- One call on the assembler. A label is the number of its declaration. -/
inductive Directive where
  /-- An opcode without an argument. -/
  | op (op : Opcode)
  /-- An opcode with an argument that is not a jump. -/
  | arg (op : Opcode) (n : UInt32)
  /-- Loads a constant. -/
  | const (c : Const)
  /-- An opcode on a name. -/
  | name (op : Opcode) (s : String)
  /-- An opcode on a fast local. -/
  | local (op : Opcode) (s : String)
  /-- An opcode on a cell. -/
  | deref (op : Opcode) (s : String)
  /-- A comparison. -/
  | compare (op : CompareOp)
  /-- A call with so many positional arguments and keyword pairs. -/
  | call (positional keyword : UInt8)
  /-- A function with so many defaults, or a closure. -/
  | makeFunction (defaults kwdefaults : UInt8) (closure : Bool)
  /-- A jump to a label. -/
  | jump (op : Opcode) (label : Nat)
  /-- Declares the next label. -/
  | newLabel
  /-- Binds a label to the current offset. -/
  | bind (label : Nat)
  /-- Positional parameters. -/
  | args (names : List String)
  /-- Keyword-only parameters. -/
  | kwonlyArgs (names : List String)
  /-- The parameter that collects further positional arguments. -/
  | varargs (name : String)
  /-- The parameter that collects further keyword arguments. -/
  | varkeywords (name : String)
  /-- Locals that nested functions capture. -/
  | cellvars (names : List String)
  /-- Variables captured from the enclosing function. -/
  | freevars (names : List String)

/-- A jump whose argument is filled in at the end. -/
structure Patch where
  /-- Offset of the jump. -/
  pos : Nat
  label : Nat
  relative : Bool
deriving DecidableEq, Repr, Inhabited

/-- The state of an assembly. -/
structure Assembler where
  name : String
  bytecode : Array UInt8 := #[]
  consts : Array Const := #[]
  names : Array String := #[]
  varnames : Array String := #[]
  cellvars : Array String := #[]
  freevars : Array String := #[]
  argCount : Nat := 0
  kwonlyArgCount : Nat := 0
  hasVarargs : Bool := false
  hasVarkeywords : Bool := false
  /-- The offset each label is bound to. -/
  labels : Array (Option Nat) := #[]
  /-- The jumps, in the order they were written. -/
  patches : Array Patch := #[]
  /-- Declared depth of the operand stack. -/
  depth : Nat := 0
  /-- Greatest declared depth so far. -/
  maxDepth : Nat := 0
  /-- The first problem met. -/
  error : Option BuildError := none
deriving Inhabited

namespace Assembler

/-- Offset of the next instruction. -/
def offset (a : Assembler) : Nat :=
  a.bytecode.size

/-- Records a problem unless there already is one. -/
def fail (a : Assembler) (e : BuildError) : Assembler :=
  { a with error := a.error.or (some e) }

/-- Records a problem if a condition holds. -/
def failIf (a : Assembler) (cond : Bool) (e : BuildError) : Assembler :=
  if cond then a.fail e else a

/-- Follows the declared stack effect; the depth never falls below zero. -/
def track (a : Assembler) (op : Opcode) (arg : Nat) : Assembler :=
  let depth := ((a.depth : Int) + op.stackEffect arg).toNat
  { a with depth, maxDepth := max a.maxDepth depth }

/-- Writes bytes. -/
def write (a : Assembler) (bs : List UInt8) : Assembler :=
  { a with bytecode := bs.foldl Array.push a.bytecode }

/-! ### Instructions -/

/-- Bytes of an instruction with an argument, prefixed if it needs more than two
bytes. -/
def argBytes (op : Opcode) (arg : UInt32) : List UInt8 :=
  let n := arg.toNat
  let low := [op.toByte, UInt8.ofNat (n % 256), UInt8.ofNat (n / 256 % 256)]
  if 65535 < n then
    Opcode.extendedArg.toByte :: UInt8.ofNat (n / 65536 % 256) ::
      UInt8.ofNat (n / 16777216 % 256) :: low
  else
    low

/-- The opcode takes a jump target. -/
def isJump (op : Opcode) : Bool :=
  op.operandKind == .jumpRel || op.operandKind == .jumpAbs

/-- Writes an opcode without an argument. -/
def emit (a : Assembler) (op : Opcode) : Assembler :=
  if op.hasArg then a.fail (.argumentMismatch op)
  else (a.write [op.toByte]).track op 0

/-- Writes an opcode with an argument. -/
def emitArg (a : Assembler) (op : Opcode) (arg : UInt32) : Assembler :=
  if !op.hasArg || op == .extendedArg then a.fail (.argumentMismatch op)
  else if isJump op then a.fail (.notAJump op)
  else (a.write (argBytes op arg)).track op arg.toNat

/-- A table index as an argument. -/
def indexArg (i : Nat) : UInt32 :=
  UInt32.ofNat (min i (UInt32.size - 1))

/-- The index of a name in a table, and the table with the name in it. -/
def intern (table : Array String) (s : String) : Nat × Array String :=
  match table.findIdx? (· == s) with
  | some i => (i, table)
  | none => (table.size, table.push s)

/-- A constant that shares an equal entry of the pool. Floats do not: the two
zeros are equal and differ. -/
def isShared : Const → Bool
  | .float _ | .code _ => false
  | _ => true

/-- The index of a constant in a pool, and the pool with the constant in it. -/
def internConst (pool : Array Const) (c : Const) : Nat × Array Const :=
  match if isShared c then pool.findIdx? (fun k => k.same c) else none with
  | some i => (i, pool)
  | none => (pool.size, pool.push c)

/-- Loads a constant. -/
def emitConst (a : Assembler) (c : Const) : Assembler :=
  let (i, consts) := internConst a.consts c
  { a with consts }.emitArg .loadConst (indexArg i)

/-- Writes an opcode on a name. -/
def emitName (a : Assembler) (op : Opcode) (s : String) : Assembler :=
  let (i, names) := intern a.names s
  { a with names }.emitArg op (indexArg i)

/-- Writes an opcode on a fast local. -/
def emitLocal (a : Assembler) (op : Opcode) (s : String) : Assembler :=
  let (i, varnames) := intern a.varnames s
  { a with varnames }.emitArg op (indexArg i)

/-- The cell index of a variable: captured locals, then free variables. -/
def cellIndex? (a : Assembler) (s : String) : Option Nat :=
  match a.cellvars.findIdx? (· == s) with
  | some i => some i
  | none => (a.freevars.findIdx? (· == s)).map (a.cellvars.size + ·)

/-- Writes an opcode on a declared cell. -/
def emitDeref (a : Assembler) (op : Opcode) (s : String) : Assembler :=
  match a.cellIndex? s with
  | some i => a.emitArg op (indexArg i)
  | none => a.fail (.unknownCell s)

/-- Two counts in one argument. -/
def pairArg (low high : UInt8) : UInt32 :=
  UInt32.ofNat (high.toNat * 256 + low.toNat)

/-- Writes a jump to a label. -/
def emitJump (a : Assembler) (op : Opcode) (label : Nat) : Assembler :=
  if isJump op then
    let patch := { pos := a.offset, label, relative := op.operandKind == .jumpRel }
    ({ a with patches := a.patches.push patch }.write [op.toByte, 0, 0]).track op 0
  else
    a.fail (.notAJump op)

/-- Binds a label to the current offset. -/
def bindLabel (a : Assembler) (label : Nat) : Assembler :=
  match a.labels[label]? with
  | some none => { a with labels := a.labels.setIfInBounds label (some a.offset) }
  | _ => a.fail .labelRebound

/-! ### Parameters -/

/-- Number of collecting parameters declared. -/
def starCount (a : Assembler) : Nat :=
  a.hasVarargs.toNat + a.hasVarkeywords.toNat

/-- Appends parameter names; they lead the fast names. -/
def pushParams (a : Assembler) (names : List String) : Assembler :=
  let declared := a.argCount + a.kwonlyArgCount + a.starCount
  let a := a.failIf (a.varnames.size != declared) .paramsAfterLocals
  { a with varnames := a.varnames ++ names.toArray }

/-- Positional parameters come first. -/
def withArgs (a : Assembler) (names : List String) : Assembler :=
  let a := a.failIf (0 < a.kwonlyArgCount || 0 < a.starCount) .paramOrder
  let a := a.pushParams names
  { a with argCount := a.argCount + names.length }

/-- Keyword-only parameters follow the positional ones. -/
def withKwonlyArgs (a : Assembler) (names : List String) : Assembler :=
  let a := a.failIf (0 < a.starCount) .paramOrder
  let a := a.pushParams names
  { a with kwonlyArgCount := a.kwonlyArgCount + names.length }

/-- The parameter for further positional arguments follows the named ones. -/
def withVarargs (a : Assembler) (name : String) : Assembler :=
  let a := a.failIf (0 < a.starCount) .paramOrder
  let a := a.pushParams [name]
  { a with hasVarargs := true }

/-- The parameter for further keywords comes last. -/
def withVarkeywords (a : Assembler) (name : String) : Assembler :=
  let a := a.failIf a.hasVarkeywords .paramOrder
  let a := a.pushParams [name]
  { a with hasVarkeywords := true }

/-! ### Directives -/

/-- The effect of a directive. -/
def apply (a : Assembler) : Directive → Assembler
  | .op op => a.emit op
  | .arg op n => a.emitArg op n
  | .const c => a.emitConst c
  | .name op s => a.emitName op s
  | .local op s => a.emitLocal op s
  | .deref op s => a.emitDeref op s
  | .compare op => a.emitArg .compare (UInt32.ofNat op.index)
  | .call positional keyword => a.emitArg .callFunction (pairArg positional keyword)
  | .makeFunction defaults kwdefaults closure =>
    a.emitArg (if closure then .makeClosure else .makeFunction) (pairArg defaults kwdefaults)
  | .jump op label => a.emitJump op label
  | .newLabel => { a with labels := a.labels.push none }
  | .bind label => a.bindLabel label
  | .args names => a.withArgs names
  | .kwonlyArgs names => a.withKwonlyArgs names
  | .varargs name => a.withVarargs name
  | .varkeywords name => a.withVarkeywords name
  | .cellvars names => { a with cellvars := a.cellvars ++ names.toArray }
  | .freevars names => { a with freevars := a.freevars ++ names.toArray }

/-- The effect of directives in order. -/
def run (a : Assembler) (ds : List Directive) : Assembler :=
  ds.foldl apply a

/-! ### Building -/

/-- The argument of a jump: its target, or the distance from its end. -/
def patchArg (labels : Array (Option Nat)) (p : Patch) : Except BuildError Nat :=
  match labels[p.label]? with
  | some (some target) =>
    if p.relative ∧ target < p.pos + 3 then
      .error (.backwardRelativeJump p.pos)
    else
      let arg := if p.relative then target - (p.pos + 3) else target
      if 65535 < arg then .error (.jumpTooFar p.pos) else .ok arg
  | _ => .error .unboundLabel

/-- Fills in the argument of a jump. -/
def patchOne (labels : Array (Option Nat)) (bytecode : Array UInt8) (p : Patch) :
    Except BuildError (Array UInt8) :=
  (patchArg labels p).map fun arg =>
    (bytecode.setIfInBounds (p.pos + 1) (UInt8.ofNat (arg % 256))).setIfInBounds (p.pos + 2)
      (UInt8.ofNat (arg / 256))

/-- Fills in the arguments of jumps in order. -/
def patchAll (labels : Array (Option Nat)) :
    List Patch → Array UInt8 → Except BuildError (Array UInt8)
  | [], bytecode => .ok bytecode
  | p :: ps, bytecode =>
    match patchOne labels bytecode p with
    | .ok bytecode => patchAll labels ps bytecode
    | .error e => .error e

/-- The flags of the code object. -/
def flags (a : Assembler) : UInt32 :=
  (if a.hasVarargs then Code.varargsFlag else 0) |||
    (if a.hasVarkeywords then Code.varkeywordsFlag else 0)

/-- The code object with the given instruction stream. -/
def toCode (a : Assembler) (bytecode : Array UInt8) : Code :=
  { name := a.name, bytecode, consts := a.consts, names := a.names, varnames := a.varnames
    cellvars := a.cellvars, freevars := a.freevars
    argCount := UInt64.ofNat a.argCount, kwonlyArgCount := UInt64.ofNat a.kwonlyArgCount
    flags := a.flags, stackSize := UInt64.ofNat a.maxDepth }

/-- The code object, or the first problem met. -/
def build (a : Assembler) : Except BuildError Code :=
  match a.error with
  | some e => .error e
  | none => (patchAll a.labels a.patches.toList a.bytecode).map a.toCode

end Assembler

/-- The code object a list of directives gives. -/
def assemble (name : String) (ds : List Directive) : Except BuildError Code :=
  (Assembler.run { name } ds).build

end StackVM
