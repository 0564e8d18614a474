/-
Order of values. Numbers are ordered across their types, strings by their
characters, tuples and lists by their first items that differ; nothing else has an
order.

* `Value.compareWith`: the order, given equality and the order of lists;
* `Heap.compare?`: the order in a heap.
-/
import StackVM.Value.Equality

namespace StackVM

namespace Value

/-- The order of numbers. -/
def compareLeaf (a b : Value) : Option Ordering :=
  if a.isFloat || b.isFloat then
    match a.asDouble?, b.asDouble? with
    | some x, some y => x.compare? y
    | _, _ => Option.none
  else
    match a.asInt?, b.asInt? with
    | some x, some y => some (compareOfLessAndEq x.toInt y.toInt)
    | _, _ => Option.none

mutual

/-- The order, given equality and the order of lists. -/
def compareWith (eq : Value → Value → Bool) (lists : Ref .list → Ref .list → Option Ordering) :
    Value → Value → Option Ordering
  | .str _ s, .str _ t => some (compareOfLessAndEq s t)
  | .tuple _ xs, .tuple _ ys => compareAllWith eq lists xs ys
  | .list a, .list b => lists a b
  | a, b => a.compareLeaf b
termination_by structural v => v

/-- The order of sequences: that of the first items that differ, else the shorter
one is less. -/
def compareAllWith (eq : Value → Value → Bool)
    (lists : Ref .list → Ref .list → Option Ordering) :
    List Value → List Value → Option Ordering
  | [], [] => some .eq
  | [], _ :: _ => some .lt
  | _ :: _, [] => some .gt
  | x :: xs, y :: ys =>
    if eq x y then compareAllWith eq lists xs ys else compareWith eq lists x y
termination_by structural vs => vs

end

/-- The order of item lists, given equality and the order of values. -/
def compareItems (eq : Value → Value → Bool) (cmp : Value → Value → Option Ordering) :
    List Value → List Value → Option Ordering
  | [], [] => some .eq
  | [], _ :: _ => some .lt
  | _ :: _, [] => some .gt
  | x :: xs, y :: ys => if eq x y then compareItems eq cmp xs ys else cmp x y

end Value

namespace Heap

/-- The order of values in which lists are nested at most `n` deep. -/
def compareWithin? (h : Heap) : Nat → Value → Value → Option Ordering
  | 0 => Value.compareWith h.eq fun a b => if a == b then some .eq else none
  | n + 1 =>
    Value.compareWith h.eq fun a b =>
      if a == b then some .eq
      else Value.compareItems h.eq (h.compareWithin? n) (h.list a).toList (h.list b).toList

/-- The order of two values, if they have one. Lists that hold themselves are looked at no
deeper than there are lists and dicts. -/
def compare? (h : Heap) (a b : Value) : Option Ordering :=
  h.compareWithin? h.nesting a b

end Heap

end StackVM
