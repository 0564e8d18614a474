/-
Equality and order in a heap that grows. What is made later is no part of a value that was there
before, so that values which end compare as they did, although equality and order look deeper in a
heap with more lists and dicts.

* `Heap.Intact.list_eq`, `Heap.Intact.dict_eq`: what the references of such a value stand for;
* `Heap.Intact.eqWithin_eq`, `Heap.Intact.compareWithin?_eq`: the levels of equality and order;
* `Heap.Intact.eq_eq`, `Heap.Intact.compare?_eq`: **equality and order** stay as they were.
-/
import Mathlib
import StackVM.Proofs.Intact
import StackVM.Proofs.Ordering

namespace StackVM

namespace Heap.Intact

variable {h h' : Heap} {floats : Bool} {m n : Nat} {a b : Value}

/-! ### Lists and dicts -/

lemma list_eq (hi : h.Intact h') {r : Ref .list} (hr : h.NestedWith floats n (.list r)) :
    h'.list r = h.list r := by
  cases hr with
  | atom isLeaf => cases isLeaf
  | list found _ => rw [list_of_get? found, list_of_get? (hi.lists r _ found)]

lemma dict_eq (hi : h.Intact h') {r : Ref .dict} (hr : h.NestedWith floats n (.dict r)) :
    h'.dict r = h.dict r := by
  cases hr with
  | atom isLeaf => cases isLeaf
  | dict found _ => rw [dict_of_get? found, dict_of_get? (hi.dicts r _ found)]

lemma nesting_le (hi : h.Intact h') : h.nesting ≤ h'.nesting :=
  Nat.add_le_add (Store.size_le_of_extends hi.lists) (Store.size_le_of_extends hi.dicts)

/-! ### Equality -/

/-- At each level values are equal as they were. -/
lemma eqWithin_eq (hi : h.Intact h') (ha : h.NestedWith floats m a) (hb : h.NestedWith floats n b)
    (k : Nat) : h'.eqWithin k a b = h.eqWithin k a b := by
  induction ha generalizing n b k with
  | atom isLeaf =>
      have ha := Value.isLeaf_of_isLeaf isLeaf
      rw [eqWithin_leaf ha, eqWithin_leaf ha]
  | tuple _ ih =>
      cases b with
      | tuple j ys =>
          rw [eqWithin_tuple, eqWithin_tuple]
          exact Value.eqItems_congr fun x hx y hy => ih x hx (hb.items y hy) k
      | _ => cases k <;> rfl
  | @list _ r items found nested ih =>
      cases b with
      | list s =>
          cases k with
          | zero => rfl
          | succ k =>
              obtain ⟨_, -, hs⟩ := hb.list_items
              have hsame : Value.eqItems (h'.eqWithin k) items.toList (h.list s).toList =
                  Value.eqItems (h.eqWithin k) items.toList (h.list s).toList :=
                Value.eqItems_congr fun x hx y hy => ih x hx (hs y hy) k
              rw [eqWithin_list_succ, eqWithin_list_succ, hi.list_eq (.list found nested),
                hi.list_eq hb, list_of_get? found, hsame]
      | _ => cases k <;> rfl
  | @dict _ r d found nested ih =>
      cases b with
      | dict s =>
          cases k with
          | zero => rfl
          | succ k =>
              obtain ⟨_, -, hs⟩ := hb.dict_values
              have hsame : d.eqWith (h'.eqWithin k) (h.dict s) =
                  d.eqWith (h.eqWithin k) (h.dict s) := by
                refine Dict.eqWith_congr fun e he key y hget => ?_
                obtain ⟨e', he', -, rfl⟩ := Dict.exists_mem_of_get? hget
                exact ih e he (hs e' he') k
              rw [eqWithin_dict_succ, eqWithin_dict_succ, hi.dict_eq (.dict found nested),
                hi.dict_eq hb, dict_of_get? found, hsame]
      | _ => cases k <;> rfl

/-- **Equality** of values that end stays as it was. -/
theorem eq_eq (hi : h.Intact h') (ha : h.NestedWith floats m a) (hb : h.NestedWith floats n b) :
    h'.eq a b = h.eq a b :=
  (hi.eqWithin_eq ha hb h'.nesting).trans (ha.nesting.eqWithin_eq hi.nesting_le le_rfl b)

/-! ### Order -/

/-- At each level values are ordered as they were. -/
lemma compareWithin?_eq (hi : h.Intact h') (ha : h.NestedWith floats m a)
    (hb : h.NestedWith floats n b) (k : Nat) :
    h'.compareWithin? k a b = h.compareWithin? k a b := by
  induction ha generalizing n b k with
  | atom isLeaf =>
      have ha := Value.isLeaf_of_isLeaf isLeaf
      rw [compareWithin?_leaf ha, compareWithin?_leaf ha]
  | @tuple _ _ _ nested ih =>
      cases b with
      | tuple j ys =>
          rw [compareWithin?_tuple, compareWithin?_tuple]
          exact Value.compareItems_congr
            (fun x hx y hy => hi.eq_eq (nested x hx) (hb.items y hy))
            fun x hx y hy => ih x hx (hb.items y hy) k
      | _ => rw [compareWithin?_of_not_alike rfl, compareWithin?_of_not_alike rfl]
  | @list _ r items found nested ih =>
      cases b with
      | list s =>
          cases k with
          | zero => rw [compareWithin?, compareWithin?, Value.compareWith, Value.compareWith]
          | succ k =>
              obtain ⟨_, -, hs⟩ := hb.list_items
              have hsame :
                  Value.compareItems h'.eq (h'.compareWithin? k) items.toList (h.list s).toList =
                    Value.compareItems h.eq (h.compareWithin? k) items.toList (h.list s).toList :=
                Value.compareItems_congr
                  (fun x hx y hy => hi.eq_eq (nested x hx) (hs y hy))
                  fun x hx y hy => ih x hx (hs y hy) k
              rw [compareWithin?_list_succ, compareWithin?_list_succ,
                hi.list_eq (.list found nested), hi.list_eq hb, list_of_get? found, hsame]
      | _ => rw [compareWithin?_of_not_alike rfl, compareWithin?_of_not_alike rfl]
  | dict _ _ _ => rw [compareWithin?_of_not_alike rfl, compareWithin?_of_not_alike rfl]

/-- **The order** of values that end stays as it was. -/
theorem compare?_eq (hi : h.Intact h') (ha : h.NestedWith floats m a)
    (hb : h.NestedWith floats n b) : h'.compare? a b = h.compare? a b :=
  (hi.compareWithin?_eq ha hb h'.nesting).trans
    (ha.nesting.compareWithin?_eq hi.nesting_le le_rfl b)

end Heap.Intact

end StackVM
