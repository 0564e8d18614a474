/-
The builtin functions, by name.
-/

namespace StackVM

/-- The builtin functions. -/
inductive Builtin where
  | print
  | len
  | range
  | abs
  | str
  | repr
  | int
  | float
  | bool
  | list
  | tuple
  | min
  | max
  | sum
deriving DecidableEq, Repr, Inhabited

namespace Builtin

/-- Every builtin function. -/
def all : List Builtin :=
  [.print, .len, .range, .abs, .str, .repr, .int, .float, .bool, .list, .tuple, .min, .max, .sum]

/-- The name a builtin function is bound to. -/
def name : Builtin → String
  | .print => "print"
  | .len => "len"
  | .range => "range"
  | .abs => "abs"
  | .str => "str"
  | .repr => "repr"
  | .int => "int"
  | .float => "float"
  | .bool => "bool"
  | .list => "list"
  | .tuple => "tuple"
  | .min => "min"
  | .max => "max"
  | .sum => "sum"

/-- The builtin function with a given name, if any. -/
def ofName? (s : String) : Option Builtin :=
  all.find? fun b => b.name == s

/-- The text of the fault that no builtin function has a name. -/
def unknownName : String := "Matching variant not found"

end Builtin

end StackVM
