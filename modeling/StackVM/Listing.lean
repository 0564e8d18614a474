/-
Listings: one line for each instruction, followed by the listings of the code
objects in the constant pool.

* `Instruction.line`: offset, name, argument and what the argument stands for;
* `Code.listing`: the listing of a code object.
-/
import StackVM.Instruction
import StackVM.Text.Align

namespace StackVM

/-- What an operand stands for, in parentheses. -/
def Operand.note (c : Code) : Operand → String
  | .none | .int _ => ""
  | .const k => s!" ({k.text})"
  | .name s | .local s => s!" ({s})"
  | .free index =>
    match c.cellName? index with
    | some s => s!" ({s})"
    | .none => ""
  | .jump target => s!" (to {target})"
  | .compare op => s!" ({op.symbol})"

/-- One line of a listing, without its end. -/
def Instruction.line (c : Code) (i : Instruction) : String :=
  let head := Text.alignRight 4 (toString i.offset) ++ " "
  let body :=
    match i.opcode with
    | some op =>
      if op.hasArg then
        Text.alignLeft 24 op.name ++ " " ++ Text.alignRight 3 (toString i.arg)
      else
        op.name
    | none => s!"<{i.byte.toNat}>"
  head ++ body ++ i.operand.note c

/-- The line of a decoded instruction or of a defect, with its end. -/
def Code.entryLine (c : Code) : Except DecodeError Instruction → String
  | .ok i => i.line c ++ "\n"
  | .error e => Text.alignRight 4 (toString e.offset) ++ s!" <{e.message}>\n"

/-- The lines of the code's own instructions. -/
def Code.ownLines (c : Code) : String :=
  String.join (c.instructions.map c.entryLine)

/-- The heading of a nested listing. -/
def Code.heading (c : Code) : String :=
  s!"\nDisassembly of {c.name}:\n"

mutual

/-- The listing of a code object: its own instructions, then the code objects in
its constant pool. -/
def Code.listing : Code → String
  | ⟨n, b, cs, ns, vs, ce, fr, a, k, f, s⟩ =>
    Code.ownLines ⟨n, b, cs, ns, vs, ce, fr, a, k, f, s⟩ ++ Code.poolListing cs
termination_by structural c => c

/-- The listings of the code objects of a pool. -/
def Code.poolListing : Array Const → String
  | ⟨cs⟩ => Code.nestedListing cs
termination_by structural cs => cs

/-- The listings of the code objects in a list of constants. -/
def Code.nestedListing : List Const → String
  | [] => ""
  | c :: cs => Const.nestedSection c ++ Code.nestedListing cs
termination_by structural cs => cs

/-- The section of a listing that a constant of the pool gives rise to. -/
def Const.nestedSection : Const → String
  | .code c => c.heading ++ Code.listing c
  | _ => ""
termination_by structural c => c

end

end StackVM
