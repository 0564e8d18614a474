/-
Iteration over values.

* `Value.iterator`: a new iterator over a value;
* `Iter.next`: its next item and where it stands after that;
* `Iter.drain`: all items to come;
* `Value.collect`: the items of any iterable value; an iterator is used up.
-/
import StackVM.Heap.Basic

namespace StackVM

/-- A new iterator over a value. -/
def Value.iterator : Value → Eval Iter
  | .range r => pure (.range r 0)
  | .list r => pure (.list r 0)
  | .tuple _ items => pure (.tuple items.toArray 0)
  | .dict r => do return .dict r ((← get).dict r).size 0
  | .str _ s => pure (.str s 0)
  | v => throw (.notIterable v.typeTag)

namespace Iter

/-- Number of items to come, if nothing changes. -/
def sizeHint (h : Heap) : Iter → Nat
  | .range r index => r.size - index
  | .list r index => (h.list r).size - index
  | .tuple items index => items.size - index
  | .dict _ size index => size - index
  | .str text offset => (String.Pos.Raw.extract text ⟨offset⟩ text.rawEndPos).length

/-- The next item and where the iterator stands after it, or nothing at the end.
A range is at its end too where the index has more than 63 bits, and a dict that has
changed its size is a fault, at the end too. -/
@[inline] def next : Iter → Eval (Option (Value × Iter))
  | .range r index =>
    if index < 0x8000000000000000 then
      pure ((r.get? (Int64.ofNat index)).map fun i => (.int i, .range r (index + 1)))
    else
      pure none
  | .list r index => do
    return ((← get).list r)[index]?.map fun v => (v, .list r (index + 1))
  | .tuple items index =>
    pure (items[index]?.map fun v => (v, .tuple items (index + 1)))
  | .dict r size index => do
    let d := (← get).dict r
    if d.size = size then return (d.keyAt? index).map fun k => (k, .dict r size (index + 1))
    else throw .dictChangedSize
  | .str text offset => do
    match String.Pos.Raw.get? text ⟨offset⟩ with
    | some c => return some (← Eval.newStr c.toString, .str text (offset + c.utf8Size))
    | none => return none

/-- Takes at most `n` items, after those in `taken`. -/
def takeOnto : Nat → Iter → Array Value → Eval (Array Value × Iter)
  | 0, it, taken => pure (taken, it)
  | n + 1, it, taken => do
    match ← it.next with
    | some (v, it') => takeOnto n it' (taken.push v)
    | none => pure (taken, it)

/-- All items to come, and the iterator at its end. Items too many for a sequence
are refused before the first is made. -/
def drain (it : Iter) : Eval (Array Value × Iter) := do
  let hint := it.sizeHint (← get)
  Eval.ofLimit (checkSequence hint valueBytes)
  it.takeOnto (hint + 1) #[]

end Iter

namespace Value

/-- The items of an iterable value that is no iterator. -/
def items (v : Value) : Eval (Array Value) := do
  return (← (← v.iterator).drain).1

/-- The items of an iterable value; an iterator is used up. -/
def collect : Value → Eval (Array Value)
  | .iter r => do
    let (items, it) ← ((← get).iter r).drain
    Eval.setIter r it
    return items
  | v => v.items

end Value

end StackVM
