/-
Values that end. Lists and dicts are held by reference, so a value may hold itself; one
that does not is a finite tree, and its lists and dicts are nested no deeper than there are
lists and dicts in the heap. On such values equality and order, which look only so deep,
are what their recursion says they are.

* `Heap.NestedWith`: the lists and dicts in a value are there, and nested at most so deep;
* `Heap.Nested`: the same of a value in which no float stands;
* `Heap.Founded`, `Heap.Grounded`: the values of which this holds at some depth;
* `Heap.NestedWith.nesting`: the number of lists and dicts is such a depth;
* `Heap.eq_tuple`, `Heap.eq_dict`: equality of tuples and dicts by their items;
* `Heap.compare?_tuple`, `Heap.compare?_list`: their order by their items.
-/
import Mathlib
import StackVM.Proofs.HashKeys
import StackVM.Value.Order

namespace StackVM

/-! ### Depth -/

/-- The value holds no other values that equality looks at. It is a float only where floats are let
in. -/
def Value.isLeaf (floats : Bool) : Value → Bool
  | .float _ => floats
  | .tuple _ _ | .list _ | .dict _ => false
  | _ => true

/-- The value is no float and holds no other values that equality looks at. -/
abbrev Value.isAtom : Value → Bool :=
  Value.isLeaf false

lemma Value.isLeaf_of_isLeaf {floats : Bool} {v : Value} (hv : v.isLeaf floats = true) :
    v.isLeaf true = true := by
  cases v with
  | float _ => rfl
  | _ => exact hv

namespace Heap

/-- The lists and dicts in a value are there and nested at most `n` deep, and a float stands in it
only where floats are let in. The keys of dicts hold neither lists nor dicts, and are not looked
at. -/
inductive NestedWith (h : Heap) (floats : Bool) : Nat → Value → Prop where
  | atom {n : Nat} {v : Value} (isLeaf : v.isLeaf floats = true) : NestedWith h floats n v
  | tuple {n : Nat} {i : Ident} {items : List Value}
      (nested : ∀ v ∈ items, NestedWith h floats n v) : NestedWith h floats n (.tuple i items)
  | list {n : Nat} {r : Ref .list} {items : Array Value} (found : h.lists.get? r = some items)
      (nested : ∀ v ∈ items.toList, NestedWith h floats n v) :
      NestedWith h floats (n + 1) (.list r)
  | dict {n : Nat} {r : Ref .dict} {d : Dict} (found : h.dicts.get? r = some d)
      (nested : ∀ e ∈ d.entries.toList, NestedWith h floats n e.value) :
      NestedWith h floats (n + 1) (.dict r)

/-- No float stands in a value, and lists and dicts are nested in it at most `n` deep. -/
abbrev Nested (h : Heap) : Nat → Value → Prop :=
  h.NestedWith false

/-- The value is finite, does not hold itself, and holds no float. -/
def Grounded (h : Heap) (v : Value) : Prop :=
  ∃ n, h.Nested n v

/-- The value is finite and does not hold itself. -/
def Founded (h : Heap) (v : Value) : Prop :=
  ∃ n, h.NestedWith true n v

variable {h : Heap} {floats : Bool}

lemma list_of_get? {r : Ref .list} {items : Array Value} (found : h.lists.get? r = some items) :
    h.list r = items := by
  rw [Heap.list, found, Option.getD_some]

lemma dict_of_get? {r : Ref .dict} {d : Dict} (found : h.dicts.get? r = some d) :
    h.dict r = d := by
  rw [Heap.dict, found, Option.getD_some]

namespace NestedWith

variable {n : Nat}

lemma mono {m : Nat} {v : Value} (hv : h.NestedWith floats n v) (hm : n ≤ m) :
    h.NestedWith floats m v := by
  induction hv generalizing m with
  | atom isLeaf => exact .atom isLeaf
  | tuple _ ih => exact .tuple fun v hv => ih v hv hm
  | list found _ ih =>
      obtain ⟨m, rfl⟩ := Nat.exists_eq_add_of_le' (Nat.one_le_of_lt hm)
      exact .list found fun v hv => ih v hv (Nat.le_of_succ_le_succ hm)
  | dict found _ ih =>
      obtain ⟨m, rfl⟩ := Nat.exists_eq_add_of_le' (Nat.one_le_of_lt hm)
      exact .dict found fun e he => ih e he (Nat.le_of_succ_le_succ hm)

/-- The items of a tuple are nested no deeper. -/
lemma items {i : Ident} {xs : List Value} (hv : h.NestedWith floats n (.tuple i xs)) :
    ∀ x ∈ xs, h.NestedWith floats n x := by
  cases hv with
  | atom isLeaf => cases isLeaf
  | tuple nested => exact nested

/-- The items of a list are nested less deep. -/
lemma list_items {r : Ref .list} (hv : h.NestedWith floats n (.list r)) :
    ∃ m, n = m + 1 ∧ ∀ x ∈ (h.list r).toList, h.NestedWith floats m x := by
  cases hv with
  | atom isLeaf => cases isLeaf
  | list found nested =>
      refine ⟨_, rfl, ?_⟩
      rw [list_of_get? found]
      exact nested

/-- The values of a dict are nested less deep. -/
lemma dict_values {r : Ref .dict} (hv : h.NestedWith floats n (.dict r)) :
    ∃ m, n = m + 1 ∧ ∀ e ∈ (h.dict r).entries.toList, h.NestedWith floats m e.value := by
  cases hv with
  | atom isLeaf => cases isLeaf
  | dict found nested =>
      refine ⟨_, rfl, ?_⟩
      rw [dict_of_get? found]
      exact nested

lemma isFloat_eq_false {v : Value} (hv : h.Nested n v) : v.isFloat = false := by
  cases hv with
  | atom isLeaf =>
      cases v with
      | float _ => cases isLeaf
      | _ => rfl
  | tuple _ => rfl
  | list _ _ => rfl
  | dict _ _ => rfl

end NestedWith

/-! ### The heap bounds the depth -/

/-- The lists of the heap, then its dicts. -/
def container (h : Heap) (j : Nat) : Value :=
  if j < h.lists.size then .list ⟨j⟩ else .dict ⟨j - h.lists.size⟩

lemma exists_container_list {r : Ref .list} {items : Array Value}
    (found : h.lists.get? r = some items) : ∃ j < h.nesting, h.container j = .list r := by
  have hr : r.index < h.lists.size := (Array.getElem?_eq_some_iff.mp found).1
  refine ⟨r.index, Nat.lt_add_right _ hr, ?_⟩
  rw [container, if_pos hr]

lemma exists_container_dict {r : Ref .dict} {d : Dict} (found : h.dicts.get? r = some d) :
    ∃ j < h.nesting, h.container j = .dict r := by
  have hr : r.index < h.dicts.size := (Array.getElem?_eq_some_iff.mp found).1
  refine ⟨h.lists.size + r.index, Nat.add_lt_add_left hr _, ?_⟩
  rw [container, if_neg (by omega), Nat.add_sub_cancel_left]

/-- A value that is nested deeper than `k` holds a container that is nested exactly one
deeper. -/
lemma NestedWith.exists_deeper {n k : Nat} {v : Value} (hv : h.NestedWith floats n v)
    (hk : ¬ h.NestedWith floats k v) :
    ∃ j < h.nesting, h.NestedWith floats (k + 1) (h.container j) ∧
      ¬ h.NestedWith floats k (h.container j) := by
  induction hv with
  | atom isLeaf => exact absurd (.atom isLeaf) hk
  | tuple _ ih =>
      obtain ⟨x, hx, hdeep⟩ : ∃ x ∈ _, ¬ h.NestedWith floats k x := by
        by_contra hall
        push Not at hall
        exact hk (.tuple hall)
      exact ih x hx hdeep
  | @list _ r items found _ ih =>
      by_cases hsucc : h.NestedWith floats (k + 1) (.list r)
      · obtain ⟨j, hj, heq⟩ := exists_container_list found
        exact ⟨j, hj, heq ▸ hsucc, heq ▸ hk⟩
      · obtain ⟨x, hx, hdeep⟩ : ∃ x ∈ items.toList, ¬ h.NestedWith floats k x := by
          by_contra hall
          push Not at hall
          exact hsucc (.list found hall)
        exact ih x hx hdeep
  | @dict _ r d found _ ih =>
      by_cases hsucc : h.NestedWith floats (k + 1) (.dict r)
      · obtain ⟨j, hj, heq⟩ := exists_container_dict found
        exact ⟨j, hj, heq ▸ hsucc, heq ▸ hk⟩
      · obtain ⟨e, he, hdeep⟩ : ∃ e ∈ d.entries.toList, ¬ h.NestedWith floats k e.value := by
          by_contra hall
          push Not at hall
          exact hsucc (.dict found hall)
        exact ih e he hdeep

/-- **A value that ends** is nested no deeper than there are lists and dicts: otherwise there
would be one for each smaller depth, and one more. -/
theorem NestedWith.nesting {n : Nat} {v : Value} (hv : h.NestedWith floats n v) :
    h.NestedWith floats h.nesting v := by
  by_contra hdeep
  have hall (k : Fin (h.nesting + 1)) : ∃ j : Fin h.nesting,
      h.NestedWith floats (k + 1) (h.container j) ∧
        ¬ h.NestedWith floats k (h.container j) := by
    have hk : ¬ h.NestedWith floats k v := fun hk => hdeep (hk.mono (Nat.le_of_lt_succ k.isLt))
    obtain ⟨j, hj, hnested⟩ := hv.exists_deeper hk
    exact ⟨⟨j, hj⟩, hnested⟩
  choose f hf using hall
  -- containers of different depths are different
  have hlt : ∀ k k' : Fin (h.nesting + 1), k < k' → f k ≠ f k' := fun k k' hkk' heq =>
    (hf k').2 (heq ▸ (hf k).1.mono hkk')
  have hinj : Function.Injective f := fun k k' heq => by
    by_contra hne
    rcases lt_or_gt_of_ne hne with hkk' | hkk'
    · exact hlt k k' hkk' heq
    · exact hlt k' k hkk' heq.symm
  have hcard := Fintype.card_le_of_injective f hinj
  rw [Fintype.card_fin, Fintype.card_fin] at hcard
  omega

namespace Grounded

lemma nested {v : Value} (hv : h.Grounded v) : h.Nested h.nesting v :=
  hv.elim fun _ hn => hn.nesting

lemma items {i : Ident} {xs : List Value} (hv : h.Grounded (.tuple i xs)) :
    ∀ x ∈ xs, h.Grounded x :=
  fun x hx => hv.imp fun _ hn => hn.items x hx

lemma list_items {r : Ref .list} (hv : h.Grounded (.list r)) :
    ∀ x ∈ (h.list r).toList, h.Grounded x := by
  obtain ⟨n, hn⟩ := hv
  obtain ⟨m, -, hm⟩ := hn.list_items
  exact fun x hx => ⟨m, hm x hx⟩

lemma dict_values {r : Ref .dict} (hv : h.Grounded (.dict r)) :
    ∀ e ∈ (h.dict r).entries.toList, h.Grounded e.value := by
  obtain ⟨n, hn⟩ := hv
  obtain ⟨m, -, hm⟩ := hn.dict_values
  exact fun e he => ⟨m, hm e he⟩

lemma isFloat_eq_false {v : Value} (hv : h.Grounded v) : v.isFloat = false :=
  hv.elim fun _ hn => hn.isFloat_eq_false

/-- A property of values that end holds once it is inherited from their items. -/
@[elab_as_elim]
theorem ind {P : ∀ v, h.Grounded v → Prop}
    (atom : ∀ v (hv : v.isAtom = true), P v ⟨0, .atom hv⟩)
    (tuple : ∀ i xs (hv : h.Grounded (.tuple i xs)), (∀ x hx, P x (hv.items x hx)) →
      P (.tuple i xs) hv)
    (list : ∀ r (hv : h.Grounded (.list r)), (∀ x hx, P x (hv.list_items x hx)) → P (.list r) hv)
    (dict : ∀ r (hv : h.Grounded (.dict r)), (∀ e he, P e.value (hv.dict_values e he)) →
      P (.dict r) hv)
    {v : Value} (hv : h.Grounded v) : P v hv := by
  obtain ⟨n, hn⟩ := hv
  induction hn with
  | atom isLeaf => exact atom _ isLeaf
  | tuple _ ih => exact tuple _ _ _ ih
  | list found _ ih =>
      refine list _ _ fun x hx => ?_
      rw [list_of_get? found] at hx
      exact ih x hx
  | dict found _ ih =>
      refine dict _ _ fun e he => ?_
      rw [dict_of_get? found] at he
      exact ih e he

end Grounded

end Heap

/-! ### Equality of items -/

namespace Value

variable {eq eq' : Value → Value → Bool}

lemma eqAllWith_eq_eqItems (lists : Ref .list → Ref .list → Bool)
    (dicts : Ref .dict → Ref .dict → Bool) (xs ys : List Value) :
    eqAllWith lists dicts xs ys = eqItems (eqWith lists dicts) xs ys := by
  induction xs generalizing ys with
  | nil => cases ys <;> rfl
  | cons x xs ih =>
      cases ys with
      | nil => rfl
      | cons y ys => rw [eqAllWith, eqItems, ih]

/-- Rows of items are equal if they are so item by item. -/
lemma eqItems_iff {xs ys : List Value} :
    eqItems eq xs ys = true ↔ List.Forall₂ (fun x y => eq x y = true) xs ys := by
  induction xs generalizing ys with
  | nil => cases ys <;> simp [eqItems]
  | cons x xs ih => cases ys <;> simp [eqItems, ih]

/-- The sizes of arrays with equal items need no look of their own. -/
lemma eqArrays_eq_eqItems (xs ys : Array Value) :
    eqArrays eq xs ys = eqItems eq xs.toList ys.toList := by
  rw [eqArrays, Bool.and_eq_right_iff_imp]
  intro h
  simpa using (eqItems_iff.mp h).length_eq

/-- Rows are compared by how their items are. -/
lemma eqItems_congr {xs ys : List Value} (h : ∀ x ∈ xs, ∀ y ∈ ys, eq x y = eq' x y) :
    eqItems eq xs ys = eqItems eq' xs ys := by
  induction xs generalizing ys with
  | nil => cases ys <;> rfl
  | cons x xs ih =>
      cases ys with
      | nil => rfl
      | cons y ys =>
          rw [eqItems, eqItems, h x List.mem_cons_self y List.mem_cons_self,
            ih fun x hx y hy => h x (List.mem_cons_of_mem _ hx) y (List.mem_cons_of_mem _ hy)]

end Value

/-- Dicts are compared by how their values are. -/
lemma Dict.eqWith_congr {eq eq' : Value → Value → Bool} {a b : Dict}
    (h : ∀ e ∈ a.entries.toList, ∀ k y, b.get? k = some y → eq e.value y = eq' e.value y) :
    a.eqWith eq b = a.eqWith eq' b := by
  rw [eqWith, eqWith]
  congr 1
  rw [← Array.all_toList, ← Array.all_toList, Bool.eq_iff_iff, List.all_eq_true,
    List.all_eq_true]
  refine forall₂_congr fun e he => ?_
  cases hget : b.get? e.key with
  | none => rfl
  | some y => rw [Option.any_some, Option.any_some, h e he e.key y hget]

namespace Heap

variable {h : Heap} {floats : Bool} {n : Nat}

lemma eqWithin_tuple (h : Heap) (n : Nat) (i j : Ident) (xs ys : List Value) :
    h.eqWithin n (.tuple i xs) (.tuple j ys) = Value.eqItems (h.eqWithin n) xs ys := by
  cases n <;> rw [eqWithin, Value.eqWith_tuple, Value.eqAllWith_eq_eqItems]

lemma eqWithin_list_succ (h : Heap) (n : Nat) (r s : Ref .list) :
    h.eqWithin (n + 1) (.list r) (.list s) =
      (r == s || Value.eqItems (h.eqWithin n) (h.list r).toList (h.list s).toList) := by
  rw [eqWithin, Value.eqWith, Value.eqArrays_eq_eqItems]

lemma eqWithin_dict_succ (h : Heap) (n : Nat) (r s : Ref .dict) :
    h.eqWithin (n + 1) (.dict r) (.dict s) =
      (r == s || (h.dict r).eqWith (h.eqWithin n) (h.dict s)) := by
  rw [eqWithin, Value.eqWith]

/-- A leaf is compared without a look at the heap. -/
lemma eqWithin_leaf {a : Value} (ha : a.isLeaf true = true) (b : Value) (n : Nat) :
    h.eqWithin n a b = Value.eqWith (· == ·) (· == ·) a b := by
  cases n with
  | zero => rfl
  | succ n =>
      cases a with
      | tuple _ _ => cases ha
      | list _ => cases ha
      | dict _ => cases ha
      | none => cases b <;> rfl
      | str _ _ => cases b <;> rfl
      | range _ => cases b <;> rfl
      | _ => rfl

/-- Equality no longer depends on how deep it looks once it looks as deep as a value is. -/
lemma NestedWith.eqWithin_eq {a : Value} (ha : h.NestedWith floats n a) {m m' : Nat} (hm : n ≤ m)
    (hm' : n ≤ m') (b : Value) : h.eqWithin m a b = h.eqWithin m' a b := by
  induction ha generalizing m m' b with
  | atom isLeaf =>
      have ha := Value.isLeaf_of_isLeaf isLeaf
      rw [eqWithin_leaf ha, eqWithin_leaf ha]
  | tuple _ ih =>
      cases b with
      | tuple j ys =>
          rw [eqWithin_tuple, eqWithin_tuple]
          exact Value.eqItems_congr fun x hx y _ => ih x hx hm hm' y
      | _ => cases m <;> cases m' <;> rfl
  | @list _ r items found _ ih =>
      obtain ⟨m, rfl⟩ := Nat.exists_eq_add_of_le' (Nat.one_le_of_lt hm)
      obtain ⟨m', rfl⟩ := Nat.exists_eq_add_of_le' (Nat.one_le_of_lt hm')
      cases b with
      | list s =>
          have hsame : Value.eqItems (h.eqWithin m) items.toList (h.list s).toList =
              Value.eqItems (h.eqWithin m') items.toList (h.list s).toList :=
            Value.eqItems_congr fun x hx y _ =>
              ih x hx (Nat.le_of_succ_le_succ hm) (Nat.le_of_succ_le_succ hm') y
          rw [eqWithin_list_succ, eqWithin_list_succ, list_of_get? found, hsame]
      | _ => rfl
  | @dict _ r d found _ ih =>
      obtain ⟨m, rfl⟩ := Nat.exists_eq_add_of_le' (Nat.one_le_of_lt hm)
      obtain ⟨m', rfl⟩ := Nat.exists_eq_add_of_le' (Nat.one_le_of_lt hm')
      cases b with
      | dict s =>
          have hsame : d.eqWith (h.eqWithin m) (h.dict s) = d.eqWith (h.eqWithin m') (h.dict s) :=
            Dict.eqWith_congr fun e he _ y _ =>
              ih e he (Nat.le_of_succ_le_succ hm) (Nat.le_of_succ_le_succ hm') y
          rw [eqWithin_dict_succ, eqWithin_dict_succ, dict_of_get? found, hsame]
      | _ => rfl

/-! ### The recursion of equality -/

/-- Tuples are equal if their items are. -/
lemma eq_tuple (h : Heap) (i j : Ident) (xs ys : List Value) :
    h.eq (.tuple i xs) (.tuple j ys) = Value.eqItems h.eq xs ys :=
  h.eqWithin_tuple h.nesting i j xs ys

/-- Dicts are equal if they are one dict, or their entries are equal in any order. -/
lemma eq_dict {r : Ref .dict} (hr : h.Grounded (.dict r)) (s : Ref .dict) :
    h.eq (.dict r) (.dict s) = (r == s || (h.dict r).eqWith h.eq (h.dict s)) := by
  obtain ⟨m, hm, hvalues⟩ := hr.nested.dict_values
  have hsame : (h.dict r).eqWith (h.eqWithin m) (h.dict s) =
      (h.dict r).eqWith h.eq (h.dict s) :=
    Dict.eqWith_congr fun e he _ y _ =>
      (hvalues e he).eqWithin_eq (Nat.le_refl m) (Nat.le.intro hm.symm) y
  rw [← hsame, ← eqWithin_dict_succ, ← hm]
  rfl

end Heap

/-! ### The recursion of the order -/

namespace Value

lemma compareAllWith_eq_compareItems (eq : Value → Value → Bool)
    (lists : Ref .list → Ref .list → Option Ordering) (xs ys : List Value) :
    compareAllWith eq lists xs ys = compareItems eq (compareWith eq lists) xs ys := by
  induction xs generalizing ys with
  | nil => cases ys <;> rfl
  | cons x xs ih =>
      cases ys with
      | nil => rfl
      | cons y ys => rw [compareAllWith, compareItems, ih]

/-- Rows are ordered by how their items are compared and ordered. -/
lemma compareItems_congr {eq eq' : Value → Value → Bool}
    {cmp cmp' : Value → Value → Option Ordering} {xs ys : List Value}
    (heq : ∀ x ∈ xs, ∀ y ∈ ys, eq x y = eq' x y) (hcmp : ∀ x ∈ xs, ∀ y ∈ ys, cmp x y = cmp' x y) :
    compareItems eq cmp xs ys = compareItems eq' cmp' xs ys := by
  induction xs generalizing ys with
  | nil => cases ys <;> rfl
  | cons x xs ih =>
      cases ys with
      | nil => rfl
      | cons y ys =>
          rw [compareItems, compareItems, heq x List.mem_cons_self y List.mem_cons_self,
            hcmp x List.mem_cons_self y List.mem_cons_self,
            ih (fun x hx y hy => heq x (List.mem_cons_of_mem _ hx) y (List.mem_cons_of_mem _ hy))
              fun x hx y hy => hcmp x (List.mem_cons_of_mem _ hx) y (List.mem_cons_of_mem _ hy)]

end Value

namespace Heap

variable {h : Heap} {floats : Bool} {n : Nat}

lemma compareWithin?_tuple (h : Heap) (n : Nat) (i j : Ident) (xs ys : List Value) :
    h.compareWithin? n (.tuple i xs) (.tuple j ys) =
      Value.compareItems h.eq (h.compareWithin? n) xs ys := by
  cases n <;> rw [compareWithin?, Value.compareWith, Value.compareAllWith_eq_compareItems]

lemma compareWithin?_list_succ (h : Heap) (n : Nat) (r s : Ref .list) :
    h.compareWithin? (n + 1) (.list r) (.list s) =
      if r == s then some .eq
      else Value.compareItems h.eq (h.compareWithin? n) (h.list r).toList (h.list s).toList := by
  rw [compareWithin?, Value.compareWith]

/-- The order of a leaf depends neither on equality nor on lists. -/
lemma compareWithin?_leaf {a : Value} (ha : a.isLeaf true = true) (b : Value) (n : Nat) :
    h.compareWithin? n a b = Value.compareWith (fun _ _ => false) (fun _ _ => none) a b := by
  cases n with
  | zero =>
      cases a with
      | list _ => cases ha
      | tuple _ _ => cases ha
      | str _ _ => cases b <;> rfl
      | _ => rfl
  | succ n =>
      cases a with
      | list _ => cases ha
      | tuple _ _ => cases ha
      | str _ _ => cases b <;> rfl
      | _ => rfl

/-- The order no longer depends on how deep it looks once it looks as deep as a value is. -/
lemma NestedWith.compareWithin?_eq {a : Value} (ha : h.NestedWith floats n a) {m m' : Nat}
    (hm : n ≤ m) (hm' : n ≤ m') (b : Value) : h.compareWithin? m a b = h.compareWithin? m' a b := by
  induction ha generalizing m m' b with
  | atom isLeaf =>
      have ha := Value.isLeaf_of_isLeaf isLeaf
      rw [compareWithin?_leaf ha, compareWithin?_leaf ha]
  | tuple _ ih =>
      cases b with
      | tuple j ys =>
          rw [compareWithin?_tuple, compareWithin?_tuple]
          exact Value.compareItems_congr (fun _ _ _ _ => rfl) fun x hx y _ => ih x hx hm hm' y
      | _ => cases m <;> cases m' <;> rfl
  | @list _ r items found _ ih =>
      obtain ⟨m, rfl⟩ := Nat.exists_eq_add_of_le' (Nat.one_le_of_lt hm)
      obtain ⟨m', rfl⟩ := Nat.exists_eq_add_of_le' (Nat.one_le_of_lt hm')
      cases b with
      | list s =>
          have hsame :
              Value.compareItems h.eq (h.compareWithin? m) items.toList (h.list s).toList =
                Value.compareItems h.eq (h.compareWithin? m') items.toList (h.list s).toList :=
            Value.compareItems_congr (fun _ _ _ _ => rfl) fun x hx y _ =>
              ih x hx (Nat.le_of_succ_le_succ hm) (Nat.le_of_succ_le_succ hm') y
          rw [compareWithin?_list_succ, compareWithin?_list_succ, list_of_get? found, hsame]
      | _ => rfl
  | dict _ _ _ => cases m <;> cases m' <;> rfl

/-- Tuples are ordered by their items. -/
lemma compare?_tuple (h : Heap) (i j : Ident) (xs ys : List Value) :
    h.compare? (.tuple i xs) (.tuple j ys) = Value.compareItems h.eq h.compare? xs ys :=
  h.compareWithin?_tuple h.nesting i j xs ys

/-- Lists are ordered by their items, unless they are one list. -/
lemma compare?_list {r : Ref .list} (hr : h.Grounded (.list r)) (s : Ref .list) :
    h.compare? (.list r) (.list s) =
      if r == s then some .eq
      else Value.compareItems h.eq h.compare? (h.list r).toList (h.list s).toList := by
  obtain ⟨m, hm, hitems⟩ := hr.nested.list_items
  have hsame : Value.compareItems h.eq (h.compareWithin? m) (h.list r).toList (h.list s).toList =
      Value.compareItems h.eq h.compare? (h.list r).toList (h.list s).toList :=
    Value.compareItems_congr (fun _ _ _ _ => rfl) fun x hx y _ =>
      (hitems x hx).compareWithin?_eq (Nat.le_refl m) (Nat.le.intro hm.symm) y
  rw [← hsame, ← compareWithin?_list_succ, ← hm]
  rfl

end Heap

end StackVM
