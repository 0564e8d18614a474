/-
Length and truth of values.

* `Heap.len?`: the number of items, for values that have items;
* `Heap.truth`: zeros, the none value and values without items are false.
-/
import StackVM.Heap.Basic

namespace StackVM

namespace Heap

/-- The number of items, for values that have items. -/
def len? (h : Heap) : Value → Option Nat
  | .str _ s => some s.length
  | .tuple _ items => some items.length
  | .list r => some (h.list r).size
  | .dict r => some (h.dict r).size
  | .range r => some r.size
  | _ => none

/-- Truth of a value. -/
def truth (h : Heap) : Value → Bool
  | .none => false
  | .bool b => b
  | .int i => i != 0
  | .float d => !d.isZero
  | .str _ s => !s.isEmpty
  | .tuple _ items => !items.isEmpty
  | .list r => !(h.list r).isEmpty
  | .dict r => (h.dict r).size != 0
  | .range r => !r.isEmpty
  | _ => true

end Heap

end StackVM
