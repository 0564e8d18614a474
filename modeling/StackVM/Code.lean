/-
Code objects: an instruction stream with the tables its arguments index.

* `Const`, `Code`: constants and code objects, each of which may hold the other;
* `Const.same`, `Code.same`: equality that compares floats as numbers, so that
  the two zeros are the same and a not-a-number is not;
* `Code.cellName?`: the variable behind a cell index, captured locals first;
* `Const.text`: the written form of a constant.
-/
import StackVM.Double.Text
import StackVM.Text.Quoted

namespace StackVM

mutual

/-- An entry of a constant pool. -/
inductive Const where
  | none
  | bool (b : Bool)
  | int (i : Int64)
  | float (d : Double)
  | str (s : String)
  | tuple (items : List Const)
  | code (c : Code)

/-- A unit of compiled code. The fast names begin with the parameters: positional
ones, keyword-only ones, then the name that collects further positional arguments
and the one that collects further keywords, if the flags ask for them. -/
structure Code where
  /-- Name shown in tracebacks. -/
  name : String
  /-- The instruction stream. -/
  bytecode : Array UInt8
  /-- Constant pool. -/
  consts : Array Const
  /-- Names of globals and of locals addressed by name. -/
  names : Array String
  /-- Names of fast locals. -/
  varnames : Array String
  /-- Locals that nested functions capture. -/
  cellvars : Array String
  /-- Variables captured from the enclosing function. -/
  freevars : Array String
  /-- Number of positional parameters. -/
  argCount : UInt64
  /-- Number of keyword-only parameters. -/
  kwonlyArgCount : UInt64
  /-- Flag bits. -/
  flags : UInt32
  /-- Hint for the depth of the operand stack. -/
  stackSize : UInt64

end

instance : Inhabited Const :=
  ⟨.none⟩

/-- A code object without instructions. -/
def Code.empty (name : String) : Code :=
  ⟨name, #[], #[], #[], #[], #[], #[], 0, 0, 0, 0⟩

instance : Inhabited Code :=
  ⟨Code.empty ""⟩

/-! ### Equality -/

mutual

/-- Equality of constants; floats are compared as numbers. -/
def Const.same : Const → Const → Bool
  | .none, .none => true
  | .bool a, .bool b => a == b
  | .int a, .int b => a == b
  | .float a, .float b => a.eq b
  | .str a, .str b => a == b
  | .tuple xs, .tuple ys => Const.sameAll xs ys
  | .code a, .code b => Code.same a b
  | _, _ => false
termination_by structural c => c

/-- Equality of lists of constants. -/
def Const.sameAll : List Const → List Const → Bool
  | [], [] => true
  | x :: xs, y :: ys => Const.same x y && Const.sameAll xs ys
  | _, _ => false
termination_by structural cs => cs

/-- Equality of constant pools. -/
def Const.samePool : Array Const → Array Const → Bool
  | ⟨xs⟩, ⟨ys⟩ => Const.sameAll xs ys
termination_by structural cs => cs

/-- Equality of code objects; floats are compared as numbers. -/
def Code.same : Code → Code → Bool
  | ⟨n, b, cs, ns, vs, ce, fr, a, k, f, s⟩, ⟨n', b', cs', ns', vs', ce', fr', a', k', f', s'⟩ =>
    n == n' && b == b' && Const.samePool cs cs' && ns == ns' && vs == vs' && ce == ce' &&
      fr == fr' && a == a' && k == k' && f == f' && s == s'
termination_by structural c => c

end

/-! ### Parts of a code object -/

namespace Code

/-- Flag of code that collects further positional arguments. -/
def varargsFlag : UInt32 := 4

/-- Flag of code that collects further keyword arguments. -/
def varkeywordsFlag : UInt32 := 8

/-- The code collects further positional arguments. -/
def hasVarargs (c : Code) : Bool :=
  c.flags &&& varargsFlag == varargsFlag

/-- The code collects further keyword arguments. -/
def hasVarkeywords (c : Code) : Bool :=
  c.flags &&& varkeywordsFlag == varkeywordsFlag

/-- Number of parameter names at the start of the fast names. -/
def totalArgCount (c : Code) : Nat :=
  c.argCount.toNat + c.kwonlyArgCount.toNat + c.hasVarargs.toNat + c.hasVarkeywords.toNat

/-- Number of cells of a frame that runs the code. -/
def cellCount (c : Code) : Nat :=
  c.cellvars.size + c.freevars.size

/-- Variable of the cell at an index: captured locals, then captured variables of
the enclosing function. -/
def cellName? (c : Code) (index : Nat) : Option String :=
  if index < c.cellvars.size then c.cellvars[index]?
  else c.freevars[index - c.cellvars.size]?

end Code

/-! ### Text -/

/-- Items between parentheses; a single item is followed by a comma. -/
def Text.tuple : List String → String
  | [x] => "(" ++ x ++ ",)"
  | xs => "(" ++ ", ".intercalate xs ++ ")"

/-- Text of a truth value. -/
def Text.bool (b : Bool) : String :=
  if b then "True" else "False"

mutual

/-- The written form of a constant. -/
def Const.text : Const → String
  | .none => "None"
  | .bool b => Text.bool b
  | .int i => toString i.toInt
  | .float d => d.text
  | .str s => Text.quote s
  | .tuple xs => Text.tuple (Const.texts xs)
  | .code c => s!"<code object {c.name}>"
termination_by structural c => c

/-- The written forms of constants. -/
def Const.texts : List Const → List String
  | [] => []
  | x :: xs => Const.text x :: Const.texts xs
termination_by structural cs => cs

end

end StackVM
