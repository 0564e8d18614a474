/-
Equality of values. Numbers are compared across their types, strings, tuples,
lists, dicts and ranges by content, and everything else by identity. Sequences of
different sizes are told apart before their items are looked at.

* `Value.eqWith`: equality, given how lists and dicts are compared;
* `Heap.eq`: equality in a heap.
-/
import StackVM.Heap.Basic

namespace StackVM

namespace Value

/-- Equality of values that are no containers: as numbers, else by identity. -/
def eqLeaf (a b : Value) : Bool :=
  if a.isFloat || b.isFloat then
    match a.asDouble?, b.asDouble? with
    | some x, some y => x.eq y
    | _, _ => false
  else
    match a.asInt?, b.asInt? with
    | some x, some y => x == y
    | _, _ => a.is b

mutual

/-- Equality, given how lists and dicts are compared. -/
def eqWith (lists : Ref .list → Ref .list → Bool) (dicts : Ref .dict → Ref .dict → Bool) :
    Value → Value → Bool
  | .none, .none => true
  | .str _ s, .str _ t => s == t
  | .tuple _ xs, .tuple _ ys => xs.length == ys.length && eqAllWith lists dicts xs ys
  | .list a, .list b => lists a b
  | .dict a, .dict b => dicts a b
  | .range a, .range b => a.sameMembers b
  | a, b => a.eqLeaf b
termination_by structural v => v

/-- Equality of lists of values, item by item. -/
def eqAllWith (lists : Ref .list → Ref .list → Bool) (dicts : Ref .dict → Ref .dict → Bool) :
    List Value → List Value → Bool
  | [], [] => true
  | x :: xs, y :: ys => eqWith lists dicts x y && eqAllWith lists dicts xs ys
  | _, _ => false
termination_by structural vs => vs

end

end Value

/-- Equality of item lists, given equality of values. -/
def Value.eqItems (eq : Value → Value → Bool) : List Value → List Value → Bool
  | [], [] => true
  | x :: xs, y :: ys => eq x y && Value.eqItems eq xs ys
  | _, _ => false

/-- Equality of item arrays, given equality of values: as many items, and each equal
to the one at its place. -/
def Value.eqArrays (eq : Value → Value → Bool) (xs ys : Array Value) : Bool :=
  xs.size == ys.size && Value.eqItems eq xs.toList ys.toList

/-- Equality of dicts in any order: as many entries, and each key of the first has
an equal value in the second. -/
def Dict.eqWith (eq : Value → Value → Bool) (a b : Dict) : Bool :=
  a.size == b.size && a.entries.all fun e => (b.get? e.key).any (eq e.value)

namespace Heap

/-- Equality of values in which lists and dicts are nested at most `n` deep. -/
def eqWithin (h : Heap) : Nat → Value → Value → Bool
  | 0 => Value.eqWith (· == ·) (· == ·)
  | n + 1 =>
    Value.eqWith
      (fun a b => a == b || Value.eqArrays (h.eqWithin n) (h.list a) (h.list b))
      (fun a b => a == b || Dict.eqWith (h.eqWithin n) (h.dict a) (h.dict b))

/-- Equality of values. -/
def eq (h : Heap) (a b : Value) : Bool :=
  h.eqWithin h.nesting a b

end Heap

end StackVM
