/-
The instruction set. An opcode below 90 stands alone in the byte stream; from 90
on it is followed by a two-byte argument.

* `Opcode.toByte`, `Opcode.ofByte?`: the byte of an opcode and back
  (`Opcode.ofByte?_toByte`);
* `Opcode.name`: the listing name;
* `Opcode.operandKind`: the table an argument is resolved against;
* `Opcode.stackEffect`: the declared change of the operand-stack depth.
-/
import StackVM.Operator

namespace StackVM

/-- Which namespace a variable instruction addresses: the frame's locals by
name, its globals, or its locals through the table of fast names. -/
inductive Scope where
  | name
  | global
  | fast
deriving DecidableEq, Repr, Inhabited

/-- The blocks an instruction can open. -/
inductive BlockSetup where
  | loop
  | except
  | finally
deriving DecidableEq, Repr, Inhabited

/-- The instructions. -/
inductive Opcode where
  | nop
  | popTop
  | dupTop
  | rotTwo
  | rotThree
  | rotFour
  | unary (op : UnaryOp)
  | binary (op : BinaryOp)
  | inplace (op : ArithOp)
  | compare
  | loadConst
  | load (scope : Scope)
  | store (scope : Scope)
  | delete (scope : Scope)
  | loadClosure
  | loadDeref
  | storeDeref
  | buildTuple
  | buildList
  | buildMap
  | storeMap
  | storeSubscr
  | deleteSubscr
  | unpackSequence
  | getIter
  | forIter
  | jumpForward
  | jumpAbsolute
  /-- Pops the tested value and jumps when its truth is `cond`. -/
  | popJumpIf (cond : Bool)
  /-- Jumps when the truth of the top value is `cond`, and pops it otherwise. -/
  | jumpIfOrPop (cond : Bool)
  | setup (block : BlockSetup)
  | popBlock
  | popExcept
  | endFinally
  | breakLoop
  | continueLoop
  | returnValue
  | raiseVarargs
  | callFunction
  | makeFunction
  | makeClosure
  /-- Carries the high half of the next instruction's argument. -/
  | extendedArg
deriving DecidableEq, Repr, Inhabited

/-- The table, if any, that the argument of an instruction is resolved against. -/
inductive OperandKind where
  | none
  | const
  | name
  | local
  | free
  | jumpRel
  | jumpAbs
  | compare
  | int
deriving DecidableEq, Repr, Inhabited

/-- First byte that is followed by an argument. -/
def haveArgument : UInt8 := 90

namespace Opcode

/-- The byte that encodes an opcode. -/
def toByte : Opcode → UInt8
  | .popTop => 1
  | .rotTwo => 2
  | .rotThree => 3
  | .dupTop => 4
  | .rotFour => 5
  | .nop => 9
  | .unary .positive => 10
  | .unary .negative => 11
  | .unary .not => 12
  | .unary .invert => 15
  | .binary .matrixMultiply => 16
  | .binary (.arith .power) => 19
  | .binary (.arith .multiply) => 20
  | .binary (.arith .modulo) => 22
  | .binary (.arith .add) => 23
  | .binary (.arith .subtract) => 24
  | .binary .subscr => 25
  | .binary (.arith .floorDivide) => 26
  | .binary (.arith .trueDivide) => 27
  | .inplace .floorDivide => 28
  | .inplace .trueDivide => 29
  | .storeMap => 54
  | .inplace .add => 55
  | .inplace .subtract => 56
  | .inplace .multiply => 57
  | .inplace .modulo => 59
  | .storeSubscr => 60
  | .deleteSubscr => 61
  | .binary (.arith .lshift) => 62
  | .binary (.arith .rshift) => 63
  | .binary (.arith .and) => 64
  | .binary (.arith .xor) => 65
  | .binary (.arith .or) => 66
  | .inplace .power => 67
  | .getIter => 68
  | .inplace .lshift => 75
  | .inplace .rshift => 76
  | .inplace .and => 77
  | .inplace .xor => 78
  | .inplace .or => 79
  | .breakLoop => 80
  | .returnValue => 83
  | .popBlock => 87
  | .endFinally => 88
  | .popExcept => 89
  | .store .name => 90
  | .delete .name => 91
  | .unpackSequence => 92
  | .forIter => 93
  | .store .global => 97
  | .delete .global => 98
  | .loadConst => 100
  | .load .name => 101
  | .buildTuple => 102
  | .buildList => 103
  | .buildMap => 105
  | .compare => 107
  | .jumpForward => 110
  | .jumpIfOrPop false => 111
  | .jumpIfOrPop true => 112
  | .jumpAbsolute => 113
  | .popJumpIf false => 114
  | .popJumpIf true => 115
  | .load .global => 116
  | .continueLoop => 119
  | .setup .loop => 120
  | .setup .except => 121
  | .setup .finally => 122
  | .load .fast => 124
  | .store .fast => 125
  | .delete .fast => 126
  | .raiseVarargs => 130
  | .callFunction => 131
  | .makeFunction => 132
  | .makeClosure => 134
  | .loadClosure => 135
  | .loadDeref => 136
  | .storeDeref => 137
  | .extendedArg => 145

/-- The opcode a byte encodes, if any. -/
def ofByte? (byte : UInt8) : Option Opcode :=
  match byte.toNat with
  | 1 => some .popTop
  | 2 => some .rotTwo
  | 3 => some .rotThree
  | 4 => some .dupTop
  | 5 => some .rotFour
  | 9 => some .nop
  | 10 => some (.unary .positive)
  | 11 => some (.unary .negative)
  | 12 => some (.unary .not)
  | 15 => some (.unary .invert)
  | 16 => some (.binary .matrixMultiply)
  | 19 => some (.binary (.arith .power))
  | 20 => some (.binary (.arith .multiply))
  | 22 => some (.binary (.arith .modulo))
  | 23 => some (.binary (.arith .add))
  | 24 => some (.binary (.arith .subtract))
  | 25 => some (.binary .subscr)
  | 26 => some (.binary (.arith .floorDivide))
  | 27 => some (.binary (.arith .trueDivide))
  | 28 => some (.inplace .floorDivide)
  | 29 => some (.inplace .trueDivide)
  | 54 => some .storeMap
  | 55 => some (.inplace .add)
  | 56 => some (.inplace .subtract)
  | 57 => some (.inplace .multiply)
  | 59 => some (.inplace .modulo)
  | 60 => some .storeSubscr
  | 61 => some .deleteSubscr
  | 62 => some (.binary (.arith .lshift))
  | 63 => some (.binary (.arith .rshift))
  | 64 => some (.binary (.arith .and))
  | 65 => some (.binary (.arith .xor))
  | 66 => some (.binary (.arith .or))
  | 67 => some (.inplace .power)
  | 68 => some .getIter
  | 75 => some (.inplace .lshift)
  | 76 => some (.inplace .rshift)
  | 77 => some (.inplace .and)
  | 78 => some (.inplace .xor)
  | 79 => some (.inplace .or)
  | 80 => some .breakLoop
  | 83 => some .returnValue
  | 87 => some .popBlock
  | 88 => some .endFinally
  | 89 => some .popExcept
  | 90 => some (.store .name)
  | 91 => some (.delete .name)
  | 92 => some .unpackSequence
  | 93 => some .forIter
  | 97 => some (.store .global)
  | 98 => some (.delete .global)
  | 100 => some .loadConst
  | 101 => some (.load .name)
  | 102 => some .buildTuple
  | 103 => some .buildList
  | 105 => some .buildMap
  | 107 => some .compare
  | 110 => some .jumpForward
  | 111 => some (.jumpIfOrPop false)
  | 112 => some (.jumpIfOrPop true)
  | 113 => some .jumpAbsolute
  | 114 => some (.popJumpIf false)
  | 115 => some (.popJumpIf true)
  | 116 => some (.load .global)
  | 119 => some .continueLoop
  | 120 => some (.setup .loop)
  | 121 => some (.setup .except)
  | 122 => some (.setup .finally)
  | 124 => some (.load .fast)
  | 125 => some (.store .fast)
  | 126 => some (.delete .fast)
  | 130 => some .raiseVarargs
  | 131 => some .callFunction
  | 132 => some .makeFunction
  | 134 => some .makeClosure
  | 135 => some .loadClosure
  | 136 => some .loadDeref
  | 137 => some .storeDeref
  | 145 => some .extendedArg
  | _ => none

/-- The text of the fault that a byte encodes no opcode. -/
def unknownByte (byte : UInt8) : String :=
  s!"invalid opcode byte: {byte.toNat}"

/-- The byte of an opcode decodes to it. -/
@[simp] theorem ofByte?_toByte (op : Opcode) : ofByte? op.toByte = some op := by
  cases op with
  | unary o => cases o <;> rfl
  | binary o =>
    cases o with
    | arith a => cases a <;> rfl
    | matrixMultiply => rfl
    | subscr => rfl
  | inplace a => cases a <;> rfl
  | load s => cases s <;> rfl
  | store s => cases s <;> rfl
  | delete s => cases s <;> rfl
  | popJumpIf b => cases b <;> rfl
  | jumpIfOrPop b => cases b <;> rfl
  | setup b => cases b <;> rfl
  | _ => rfl

/-- Every opcode, in byte order. -/
def all : List Opcode :=
  (List.range 256).filterMap fun n => ofByte? (UInt8.ofNat n)

/-- Listing name of an operator with a binary and an in-place form. -/
def arithName : ArithOp → String
  | .power => "POWER"
  | .multiply => "MULTIPLY"
  | .modulo => "MODULO"
  | .add => "ADD"
  | .subtract => "SUBTRACT"
  | .floorDivide => "FLOOR_DIVIDE"
  | .trueDivide => "TRUE_DIVIDE"
  | .lshift => "LSHIFT"
  | .rshift => "RSHIFT"
  | .and => "AND"
  | .xor => "XOR"
  | .or => "OR"

/-- Listing name of a variable scope. -/
def scopeName : Scope → String
  | .name => "NAME"
  | .global => "GLOBAL"
  | .fast => "FAST"

/-- Listing name of an opcode. -/
def name : Opcode → String
  | .nop => "NOP"
  | .popTop => "POP_TOP"
  | .dupTop => "DUP_TOP"
  | .rotTwo => "ROT_TWO"
  | .rotThree => "ROT_THREE"
  | .rotFour => "ROT_FOUR"
  | .unary .positive => "UNARY_POSITIVE"
  | .unary .negative => "UNARY_NEGATIVE"
  | .unary .not => "UNARY_NOT"
  | .unary .invert => "UNARY_INVERT"
  | .binary (.arith op) => "BINARY_" ++ arithName op
  | .binary .matrixMultiply => "BINARY_MATRIX_MULTIPLY"
  | .binary .subscr => "BINARY_SUBSCR"
  | .inplace op => "INPLACE_" ++ arithName op
  | .compare => "COMPARE_OP"
  | .loadConst => "LOAD_CONST"
  | .load s => "LOAD_" ++ scopeName s
  | .store s => "STORE_" ++ scopeName s
  | .delete s => "DELETE_" ++ scopeName s
  | .loadClosure => "LOAD_CLOSURE"
  | .loadDeref => "LOAD_DEREF"
  | .storeDeref => "STORE_DEREF"
  | .buildTuple => "BUILD_TUPLE"
  | .buildList => "BUILD_LIST"
  | .buildMap => "BUILD_MAP"
  | .storeMap => "STORE_MAP"
  | .storeSubscr => "STORE_SUBSCR"
  | .deleteSubscr => "DELETE_SUBSCR"
  | .unpackSequence => "UNPACK_SEQUENCE"
  | .getIter => "GET_ITER"
  | .forIter => "FOR_ITER"
  | .jumpForward => "JUMP_FORWARD"
  | .jumpAbsolute => "JUMP_ABSOLUTE"
  | .popJumpIf false => "POP_JUMP_IF_FALSE"
  | .popJumpIf true => "POP_JUMP_IF_TRUE"
  | .jumpIfOrPop false => "JUMP_IF_FALSE_OR_POP"
  | .jumpIfOrPop true => "JUMP_IF_TRUE_OR_POP"
  | .setup .loop => "SETUP_LOOP"
  | .setup .except => "SETUP_EXCEPT"
  | .setup .finally => "SETUP_FINALLY"
  | .popBlock => "POP_BLOCK"
  | .popExcept => "POP_EXCEPT"
  | .endFinally => "END_FINALLY"
  | .breakLoop => "BREAK_LOOP"
  | .continueLoop => "CONTINUE_LOOP"
  | .returnValue => "RETURN_VALUE"
  | .raiseVarargs => "RAISE_VARARGS"
  | .callFunction => "CALL_FUNCTION"
  | .makeFunction => "MAKE_FUNCTION"
  | .makeClosure => "MAKE_CLOSURE"
  | .extendedArg => "EXTENDED_ARG"

/-- The opcode with a given listing name, if any. -/
def ofName? (s : String) : Option Opcode :=
  all.find? fun op => op.name == s

/-- Whether the opcode is followed by an argument. -/
def hasArg (op : Opcode) : Bool :=
  haveArgument ≤ op.toByte

/-- The table the argument of an opcode is resolved against. -/
def operandKind : Opcode → OperandKind
  | .loadConst => .const
  | .load .fast | .store .fast | .delete .fast => .local
  | .load _ | .store _ | .delete _ => .name
  | .loadClosure | .loadDeref | .storeDeref => .free
  | .forIter | .jumpForward | .setup _ => .jumpRel
  | .jumpIfOrPop _ | .jumpAbsolute | .popJumpIf _ | .continueLoop => .jumpAbs
  | .compare => .compare
  | op => if op.hasArg then .int else .none

/-- Declared change of the operand-stack depth when the instruction falls
through. An argument above `2 ^ 31 - 1` counts as that bound. Jumps report the
path that does not jump; what blocks push while unwinding is not counted. -/
def stackEffect (op : Opcode) (arg : Nat) : Int :=
  let arg := min arg 0x7fffffff
  let low := arg % 256
  let high := arg / 256 % 256
  match op with
  | .nop | .rotTwo | .rotThree | .rotFour => 0
  | .popTop | .returnValue => -1
  | .dupTop => 1
  | .unary _ => 0
  | .binary _ | .inplace _ | .compare => -1
  | .loadConst | .load _ | .loadClosure | .loadDeref => 1
  | .store _ | .storeDeref => -1
  | .delete _ => 0
  | .buildTuple | .buildList => 1 - (arg : Int)
  | .buildMap => 1
  | .storeMap | .deleteSubscr => -2
  | .storeSubscr => -3
  | .unpackSequence => (arg : Int) - 1
  | .getIter => 0
  | .forIter => 1
  | .jumpForward | .jumpAbsolute | .continueLoop | .extendedArg => 0
  | .popJumpIf _ | .jumpIfOrPop _ => -1
  | .setup _ | .popBlock | .popExcept | .endFinally | .breakLoop => 0
  | .raiseVarargs => -(arg : Int)
  | .callFunction | .makeFunction => -((low + 2 * high : Nat) : Int)
  | .makeClosure => -((low + 2 * high : Nat) : Int) - 1

end Opcode

end StackVM
