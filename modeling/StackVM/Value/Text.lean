/-
Text of values: the written form, which tells a string from what it looks like,
and the shown form, which is that of `print`.

* `Value.textWith`: the written form, given the text of lists and dicts;
* `Heap.text`, `Heap.shown`: the two forms of a value in a heap.
-/
import StackVM.Heap.Basic

namespace StackVM

/-- The written form of an exception instance. -/
def ExcObject.text (e : ExcObject) : String :=
  e.cls.name ++ "(" ++ (e.arg.map Text.quote).getD "" ++ ")"

/-- The message of an exception instance. -/
def ExcObject.message (e : ExcObject) : String :=
  e.arg.getD ""

/-- Texts between brackets. -/
def Text.list (items : List String) : String :=
  "[" ++ ", ".intercalate items ++ "]"

/-- Texts between braces. -/
def Text.dict (entries : List String) : String :=
  "\x7b" ++ ", ".intercalate entries ++ "\x7d"

namespace Value

mutual

/-- The written form in a heap, given the text of lists and dicts. -/
def textWith (h : Heap) (lists : Ref .list → String) (dicts : Ref .dict → String) :
    Value → String
  | .none => "None"
  | .bool b => Text.bool b
  | .int i => toString i.toInt
  | .float d => d.text
  | .str _ s => Text.quote s
  | .tuple _ xs => Text.tuple (textsWith h lists dicts xs)
  | .list r => lists r
  | .dict r => dicts r
  | .range r => r.text
  | .function r => s!"<function {(h.function r).code.code.name}>"
  | .builtin b => s!"<built-in function {b.name}>"
  | .excClass c => s!"<class '{c.name}'>"
  | .exception e => e.text
  | .code c => s!"<code object {c.code.name}>"
  | .cell r =>
    match h.cell r with
    | some v => s!"<cell: {v.typeTag.name} object>"
    | Option.none => "<cell: empty>"
  | .iter _ => "<iterator object>"
termination_by structural v => v

/-- The written forms of values. -/
def textsWith (h : Heap) (lists : Ref .list → String) (dicts : Ref .dict → String) :
    List Value → List String
  | [] => []
  | x :: xs => textWith h lists dicts x :: textsWith h lists dicts xs
termination_by structural vs => vs

end

end Value

namespace Heap

/-- The written form of values in which lists and dicts are nested at most `n`
deep. -/
def textWithin (h : Heap) : Nat → Value → String
  | 0 => Value.textWith h (fun _ => "[...]") (fun _ => "\x7b...\x7d")
  | n + 1 =>
    Value.textWith h
      (fun r => Text.list ((h.list r).toList.map (h.textWithin n)))
      (fun r =>
        Text.dict ((h.dict r).entries.toList.map fun e =>
          h.textWithin n e.shown ++ ": " ++ h.textWithin n e.value))

/-- The written form of a value. -/
def text (h : Heap) (v : Value) : String :=
  h.textWithin h.nesting v

/-- The shown form of a value: a string as it is, an exception by its message. -/
def shown (h : Heap) : Value → String
  | .str _ s => s
  | .exception e => e.message
  | v => h.text v

end Heap

end StackVM
