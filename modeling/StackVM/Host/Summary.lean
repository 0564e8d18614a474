/-
Summaries of functions for a host.

* `Function.summary?`: name, number of defaults and closure of a function none of
  whose captured variables has a value.
-/
import StackVM.Value.Text
import StackVM.Text.Escaped

namespace StackVM

/-- The summary of a function whose closure holds no value. -/
def Function.summary? (f : Function) (h : Heap) : Option String :=
  if f.closure.all fun r => (h.cell r).isNone then
    let cells := Text.list (f.closure.map fun _ => "Cell(<empty>)")
    some ("Function \x7b name: " ++ Text.escaped f.code.code.name ++ ", defaults: " ++
      toString f.defaults.length ++ ", closure: " ++ cells ++ ", .. \x7d")
  else
    none

end StackVM
