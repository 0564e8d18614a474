/-
Causes: what can go wrong while a program runs. Every cause has a class, which
decides the handlers that catch it, and a text.

* `Cause.cls`: the class of the exception a cause is raised as;
* `Cause.message`: its text.
-/
import StackVM.Instruction
import StackVM.Value.Basic

namespace StackVM

/-- What can go wrong while a program runs. -/
inductive Cause where
  -- arguments of calls
  | notOneArgument (function : String) (given : Nat)
  | tooFewArguments (function : String) (least given : Nat)
  | tooManyArguments (function : String) (most given : Nat)
  | noKeywords (function : String)
  | tooManyPositional (function : String) (least most given : Nat)
  | missingPositional (function : String) (names : List String)
  | missingKeywordOnly (function : String) (names : List String)
  | duplicateArgument (function param : String)
  | unexpectedKeyword (function key : String)
  | keywordNotString
  | unknownPrintOption (key : String)
  | badPrintOption (option : String) (type : TypeTag)
  -- what a type does not support
  | notCallable (type : TypeTag)
  | notIterable (type : TypeTag)
  | notAnIterator (type : TypeTag)
  | notContainer (type : TypeTag)
  | notSubscriptable (type : TypeTag)
  | noItemAssignment (type : TypeTag)
  | noItemDeletion (type : TypeTag)
  | noLength (type : TypeTag)
  | unhashable (type : TypeTag)
  | badIndexType (type index : TypeTag)
  | notInteger (type : TypeTag)
  | badOperands (symbol : String) (left right : TypeTag)
  | badOperand (symbol : String) (type : TypeTag)
  | unordered (symbol : String) (left right : TypeTag)
  | noSubstringTest (type : TypeTag)
  | noIntConversion (type : TypeTag)
  | noFloatConversion (type : TypeTag)
  | noAbsoluteValue (type : TypeTag)
  | sumOfStrings
  | notADict (type : TypeTag)
  | notACode (type : TypeTag)
  -- names
  | undefinedName (name : String)
  | unboundLocal (name : String)
  | unboundFree (name : String)
  -- numbers
  | intOverflow
  | infinityToInt
  | nanToInt
  | zeroDivision
  | zeroIntDivision
  | zeroIntModulo
  | zeroFloatFloorDivision
  | zeroFloatModulo
  | zeroNegativePower
  | negativeShift
  | badIntNumeral (text : String)
  | badFloatNumeral (text : String)
  -- sequences and mappings
  | indexOutOfRange (type : TypeTag)
  | assignmentOutOfRange
  | missingKey (keyText : String)
  | unpackTooFew (expected got : Nat)
  | unpackTooMany (expected : Nat)
  | zeroRangeStep
  | emptyAggregate (function : String)
  | sequenceTooLarge (items : Nat)
  | dictChangedSize
  -- exceptions
  | notAnException
  | notCatchable
  | nothingToReraise
  -- code that a compiler would not emit
  | recursionLimit
  | unknownOpcode (byte : UInt8) (name : Option String)
  | noMatchingBlock (op : String)
  | outsideLoop (keyword : String)
  | badClosureSize (function : String) (expected got : Nat)
  | badInstructionOperand (op what : String)
  | undecodable (e : DecodeError)
deriving DecidableEq, Inhabited

namespace Cause

/-- The class of the exception a cause is raised as. -/
def cls : Cause → ExcClass
  | .undefinedName _ | .unboundFree _ => .nameError
  | .unboundLocal _ => .unboundLocalError
  | .intOverflow | .infinityToInt => .overflowError
  | .zeroDivision | .zeroIntDivision | .zeroIntModulo | .zeroFloatFloorDivision
  | .zeroFloatModulo | .zeroNegativePower => .zeroDivisionError
  | .nanToInt | .negativeShift | .badIntNumeral _ | .badFloatNumeral _ | .unpackTooFew _ _
  | .unpackTooMany _ | .zeroRangeStep | .emptyAggregate _ => .valueError
  | .indexOutOfRange _ | .assignmentOutOfRange => .indexError
  | .missingKey _ => .keyError
  | .sequenceTooLarge _ => .memoryError
  | .dictChangedSize | .nothingToReraise => .runtimeError
  | .recursionLimit => .recursionError
  | .unknownOpcode _ _ | .noMatchingBlock _ | .outsideLoop _ | .badClosureSize _ _ _
  | .badInstructionOperand _ _ => .systemError
  | .undecodable _ => .decodeError
  | _ => .typeError

/-- The word for `n` arguments. -/
def argumentWord (n : Nat) : String :=
  if n = 1 then "argument" else "arguments"

/-- Names in quotes, as an enumeration in a sentence. -/
def nameList : List String → String
  | [] => ""
  | [a] => s!"'{a}'"
  | [a, b] => s!"'{a}' and '{b}'"
  | names =>
    let quoted := names.map fun n => s!"'{n}'"
    ", ".intercalate quoted.dropLast ++ ", and " ++ quoted.getLastD ""

/-- The type as the text of an index fault spells it. -/
def indexedTypeName : TypeTag → String
  | .str => "string"
  | t => t.name

/-- The text of operands that an operator does not take. A sum with a string or a
list on the left has a text of its own. -/
def operandsMessage (symbol : String) (left right : TypeTag) : String :=
  if (symbol == "+" || symbol == "+=") && (left == .str || left == .list) then
    s!"can only concatenate {left.name} (not \"{right.name}\") to {left.name}"
  else
    s!"unsupported operand type(s) for {symbol}: '{left.name}' and '{right.name}'"

/-- The text of a call with too many positional arguments. -/
def tooManyPositionalMessage (function : String) (least most given : Nat) : String :=
  let was := if given = 1 then "was" else "were"
  let takes :=
    if least < most then s!"from {least} to {most} positional arguments"
    else s!"{most} positional {argumentWord most}"
  s!"{function}() takes {takes} but {given} {was} given"

/-- The text of a cause. -/
def message : Cause → String
  | .notOneArgument f given => s!"{f}() takes exactly one argument ({given} given)"
  | .tooFewArguments f least given =>
    s!"{f} expected at least {least} {argumentWord least}, got {given}"
  | .tooManyArguments f most given =>
    s!"{f} expected at most {most} {argumentWord most}, got {given}"
  | .noKeywords f => s!"{f}() takes no keyword arguments"
  | .tooManyPositional f least most given => tooManyPositionalMessage f least most given
  | .missingPositional f names =>
    let n := names.length
    s!"{f}() missing {n} required positional {argumentWord n}: {nameList names}"
  | .missingKeywordOnly f names =>
    let n := names.length
    s!"{f}() missing {n} required keyword-only {argumentWord n}: {nameList names}"
  | .duplicateArgument f param => s!"{f}() got multiple values for argument '{param}'"
  | .unexpectedKeyword f key => s!"{f}() got an unexpected keyword argument '{key}'"
  | .keywordNotString => "keywords must be strings"
  | .unknownPrintOption key => s!"'{key}' is an invalid keyword argument for print()"
  | .badPrintOption option t => s!"{option} must be None or a string, not {t.name}"
  | .notCallable t => s!"'{t.name}' object is not callable"
  | .notIterable t => s!"'{t.name}' object is not iterable"
  | .notAnIterator t => s!"'{t.name}' object is not an iterator"
  | .notContainer t => s!"argument of type '{t.name}' is not iterable"
  | .notSubscriptable t => s!"'{t.name}' object is not subscriptable"
  | .noItemAssignment t => s!"'{t.name}' object does not support item assignment"
  | .noItemDeletion t => s!"'{t.name}' object doesn't support item deletion"
  | .noLength t => s!"object of type '{t.name}' has no len()"
  | .unhashable t => s!"unhashable type: '{t.name}'"
  | .badIndexType t index => s!"{t.name} indices must be integers, not {index.name}"
  | .notInteger t => s!"'{t.name}' object cannot be interpreted as an integer"
  | .badOperands symbol left right => operandsMessage symbol left right
  | .badOperand symbol t => s!"bad operand type for {symbol}: '{t.name}'"
  | .unordered symbol left right =>
    s!"'{symbol}' not supported between instances of '{left.name}' and '{right.name}'"
  | .noSubstringTest t => s!"'in <string>' requires string as left operand, not {t.name}"
  | .noIntConversion t =>
    s!"int() argument must be a string, a bytes-like object or a real number, not '{t.name}'"
  | .noFloatConversion t =>
    s!"float() argument must be a string or a real number, not '{t.name}'"
  | .noAbsoluteValue t => s!"bad operand type for abs(): '{t.name}'"
  | .sumOfStrings => "sum() can't sum strings [use ''.join(seq) instead]"
  | .notADict t => s!"STORE_MAP expects a dict, not {t.name}"
  | .notACode t => s!"function body must be a code object, not {t.name}"
  | .undefinedName name => s!"name '{name}' is not defined"
  | .unboundLocal name =>
    s!"cannot access local variable '{name}' where it is not associated with a value"
  | .unboundFree name =>
    s!"free variable '{name}' referenced before assignment in enclosing scope"
  | .intOverflow => "integer result out of 64-bit range"
  | .infinityToInt => "cannot convert float infinity to integer"
  | .nanToInt => "cannot convert float NaN to integer"
  | .zeroDivision => "division by zero"
  | .zeroIntDivision => "integer division or modulo by zero"
  | .zeroIntModulo => "integer modulo by zero"
  | .zeroFloatFloorDivision => "float floor division by zero"
  | .zeroFloatModulo => "float modulo"
  | .zeroNegativePower => "zero to a negative power"
  | .negativeShift => "negative shift count"
  | .badIntNumeral text => "invalid literal for int() with base 10: " ++ Text.quote text
  | .badFloatNumeral text => "could not convert string to float: " ++ Text.quote text
  | .indexOutOfRange t => s!"{indexedTypeName t} index out of range"
  | .assignmentOutOfRange => "list assignment index out of range"
  | .missingKey keyText => keyText
  | .unpackTooFew expected got =>
    s!"not enough values to unpack (expected {expected}, got {got})"
  | .unpackTooMany expected => s!"too many values to unpack (expected {expected})"
  | .zeroRangeStep => "range() arg 3 must not be zero"
  | .emptyAggregate f => s!"{f}() iterable argument is empty"
  | .sequenceTooLarge items => s!"cannot allocate a sequence of {items} items"
  | .dictChangedSize => "dictionary changed size during iteration"
  | .notAnException => "exceptions must derive from BaseException"
  | .notCatchable =>
    "catching classes that do not inherit from BaseException is not allowed"
  | .nothingToReraise => "No active exception to reraise"
  | .recursionLimit => "maximum recursion depth exceeded"
  | .unknownOpcode byte none => s!"unknown opcode {byte.toNat}"
  | .unknownOpcode byte (some name) => s!"unknown opcode {name} ({byte.toNat})"
  | .noMatchingBlock op => s!"{op} without a matching block"
  | .outsideLoop keyword => s!"'{keyword}' outside loop"
  | .badClosureSize f expected got =>
    s!"{f}() requires a closure of {expected} cells, not {got}"
  | .badInstructionOperand op what => s!"{op}: bad operand {what}"
  | .undecodable e => e.message

end Cause

end StackVM
