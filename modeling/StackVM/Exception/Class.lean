/-
The exception classes and their hierarchy.

* `ExcClass.bases`: the proper superclasses of a class, nearest first;
* `ExcClass.isSubclassOf`: whether a handler for one class catches another.
-/

namespace StackVM

/-- The exception classes. -/
inductive ExcClass where
  | baseException
  | exception
  | arithmeticError
  | overflowError
  | zeroDivisionError
  | lookupError
  | indexError
  | keyError
  | nameError
  | unboundLocalError
  | runtimeError
  | recursionError
  | notImplementedError
  | systemError
  | decodeError
  | assertionError
  | memoryError
  | stopIteration
  | typeError
  | valueError
deriving DecidableEq, Repr, Inhabited

namespace ExcClass

/-- Every class. -/
def all : List ExcClass :=
  [.baseException, .exception, .arithmeticError, .overflowError, .zeroDivisionError,
    .lookupError, .indexError, .keyError, .nameError, .unboundLocalError, .runtimeError,
    .recursionError, .notImplementedError, .systemError, .decodeError, .assertionError,
    .memoryError, .stopIteration, .typeError, .valueError]

/-- Name of a class. -/
def name : ExcClass → String
  | .baseException => "BaseException"
  | .exception => "Exception"
  | .arithmeticError => "ArithmeticError"
  | .overflowError => "OverflowError"
  | .zeroDivisionError => "ZeroDivisionError"
  | .lookupError => "LookupError"
  | .indexError => "IndexError"
  | .keyError => "KeyError"
  | .nameError => "NameError"
  | .unboundLocalError => "UnboundLocalError"
  | .runtimeError => "RuntimeError"
  | .recursionError => "RecursionError"
  | .notImplementedError => "NotImplementedError"
  | .systemError => "SystemError"
  | .decodeError => "DecodeError"
  | .assertionError => "AssertionError"
  | .memoryError => "MemoryError"
  | .stopIteration => "StopIteration"
  | .typeError => "TypeError"
  | .valueError => "ValueError"

/-- The class with a given name, if any. -/
def ofName? (s : String) : Option ExcClass :=
  all.find? fun c => c.name == s

/-- The text of the fault that no class has a name. -/
def unknownName : String := "Matching variant not found"

/-- The proper superclasses of a class, nearest first. -/
def bases : ExcClass → List ExcClass
  | .baseException => []
  | .exception => [.baseException]
  | .overflowError | .zeroDivisionError => [.arithmeticError, .exception, .baseException]
  | .indexError | .keyError => [.lookupError, .exception, .baseException]
  | .unboundLocalError => [.nameError, .exception, .baseException]
  | .recursionError | .notImplementedError => [.runtimeError, .exception, .baseException]
  | .decodeError => [.systemError, .exception, .baseException]
  | _ => [.exception, .baseException]

/-- Whether a handler for `handler` catches `c`. -/
def isSubclassOf (c handler : ExcClass) : Bool :=
  c == handler || c.bases.contains handler

end ExcClass

end StackVM
