/-
Runtime values. Numbers, ranges, builtins and exception classes are plain data.
Strings, tuples, exception instances and code objects never change and carry their
identity; lists, dicts, cells, iterators and functions live in the heap and are
held by reference.

* `Ident`: the identity of an object that never changes;
* `Ref`: a reference to an object of the heap;
* `Value`, `Value.typeTag`: values and their types;
* `Value.is`: identity of values, the same as `Value.same` (`is_eq_same`).
-/
import StackVM.Builtin.Name
import StackVM.Code
import StackVM.Exception.Class
import StackVM.Range

namespace StackVM

/-- Identity of an object that never changes: made at run time, or the constant at
a path of the pool of a code object. -/
inductive Ident where
  | made (n : Nat)
  | pooled (owner : Ident) (path : List Nat)
deriving DecidableEq, Repr, Inhabited, Hashable

/-- The kinds of objects in the heap. -/
inductive RefKind where
  | list
  | dict
  | cell
  | iter
  | function
  | namespace
deriving DecidableEq, Repr

/-- A reference to an object of the heap. -/
structure Ref (kind : RefKind) where
  index : Nat
deriving DecidableEq, Repr, Inhabited

/-- A code object of the running program. -/
structure CodeObject where
  ident : Ident
  code : Code
deriving Inhabited

/-- An exception instance: its class and its argument, if it has one. -/
structure ExcObject where
  ident : Ident
  cls : ExcClass
  arg : Option String
deriving DecidableEq, Repr, Inhabited

/-- Runtime values. -/
inductive Value where
  | none
  | bool (b : Bool)
  | int (i : Int64)
  | float (d : Double)
  | str (ident : Ident) (s : String)
  | tuple (ident : Ident) (items : List Value)
  | list (ref : Ref .list)
  | dict (ref : Ref .dict)
  | range (r : Range)
  | function (ref : Ref .function)
  | builtin (b : Builtin)
  | excClass (c : ExcClass)
  | exception (e : ExcObject)
  | code (c : CodeObject)
  | cell (ref : Ref .cell)
  | iter (ref : Ref .iter)
deriving Inhabited

/-- The types of values, as fault messages name them. -/
inductive TypeTag where
  | noneType
  | bool
  | int
  | float
  | str
  | tuple
  | list
  | dict
  | range
  | function
  | builtin
  | excClass
  | exception (c : ExcClass)
  | code
  | cell
  | iterator
deriving DecidableEq, Repr, Inhabited

/-- Name of a type. -/
def TypeTag.name : TypeTag → String
  | .noneType => "NoneType"
  | .bool => "bool"
  | .int => "int"
  | .float => "float"
  | .str => "str"
  | .tuple => "tuple"
  | .list => "list"
  | .dict => "dict"
  | .range => "range"
  | .function => "function"
  | .builtin => "builtin_function_or_method"
  | .excClass => "type"
  | .exception c => c.name
  | .code => "code"
  | .cell => "cell"
  | .iterator => "iterator"

namespace Value

/-- Type of a value. -/
def typeTag : Value → TypeTag
  | .none => .noneType
  | .bool _ => .bool
  | .int _ => .int
  | .float _ => .float
  | .str _ _ => .str
  | .tuple _ _ => .tuple
  | .list _ => .list
  | .dict _ => .dict
  | .range _ => .range
  | .function _ => .function
  | .builtin _ => .builtin
  | .excClass _ => .excClass
  | .exception e => .exception e.cls
  | .code _ => .code
  | .cell _ => .cell
  | .iter _ => .iterator

/-- Integer view of a value; a truth value counts as zero or one. -/
def asInt? : Value → Option Int64
  | .bool b => some (if b then 1 else 0)
  | .int i => some i
  | _ => Option.none

/-- The value is a float. -/
def isFloat : Value → Bool
  | .float _ => true
  | _ => false

/-- Float view of a number. -/
def asDouble? : Value → Option Double
  | .float d => some d
  | v => v.asInt?.map fun i => Double.ofInt i.toInt

mutual

/-- Sameness of values. Plain data is the same when it is equal, a float bit by bit;
an object only as itself, and then its parts are the same too. -/
def same : Value → Value → Bool
  | .none, .none => true
  | .bool a, .bool b => a == b
  | .int a, .int b => a == b
  | .float a, .float b => a == b
  | .range a, .range b => a == b
  | .str i s, .str j t => i == j && s == t
  | .tuple i xs, .tuple j ys => i == j && sameAll xs ys
  | .list a, .list b => a == b
  | .dict a, .dict b => a == b
  | .function a, .function b => a == b
  | .builtin a, .builtin b => a == b
  | .excClass a, .excClass b => a == b
  | .exception a, .exception b => a.ident == b.ident
  | .code a, .code b => a.ident == b.ident
  | .cell a, .cell b => a == b
  | .iter a, .iter b => a == b
  | _, _ => false
termination_by structural v => v

/-- Sameness of lists of values, item by item. -/
def sameAll : List Value → List Value → Bool
  | [], [] => true
  | x :: xs, y :: ys => same x y && sameAll xs ys
  | _, _ => false
termination_by structural vs => vs

end

mutual

/-- A value is the same as itself. -/
theorem same_refl : ∀ v : Value, same v v = true
  | .tuple i xs => by simp [same, sameAll_refl xs]
  | .none | .bool _ | .int _ | .float _ | .str _ _ | .list _ | .dict _ | .range _ | .function _
  | .builtin _ | .excClass _ | .exception _ | .code _ | .cell _ | .iter _ => by simp [same]

/-- Values are the same as themselves. -/
theorem sameAll_refl : ∀ vs : List Value, sameAll vs vs = true
  | [] => rfl
  | v :: vs => by simp [sameAll, same_refl v, sameAll_refl vs]

end

/-- Identity of values. Items that are shared need not be looked at, however often
they occur in a tuple. -/
def is : Value → Value → Bool
  | .tuple i xs, .tuple j ys =>
    i == j && withPtrEq xs ys (fun _ => sameAll xs ys) (fun h => h ▸ sameAll_refl xs)
  | a, b => same a b

/-- Identity is sameness. -/
theorem is_eq_same (a b : Value) : a.is b = a.same b := by
  unfold is
  split
  · simp [same, withPtrEq]
  · rfl

end Value

end StackVM
