/-
Sequences are coherent: strings, tuples, lists, dicts and ranges each have a length, a truth value,
indexing and iteration of their own, and all of these tell of the same items, which are those that
`list` makes a list of.

* `Value.position?_of_mem`, `Value.position?_of_not_mem`: the position that an index designates;
* `Value.getItem_of_position`, `Value.getItem_of_no_position`: **indexing** into any sequence;
* `Value.truth_iff`, `Value.evaluate_len`: truth and length;
* `Value.evaluate_list_of_le`, `Value.evaluate_list_of_lt`: the list of the items, and its limit;
* `Heap.Traverses`, `Heap.Enumerates`: all accounts of the items of a sequence agree;
* `sequences_are_coherent`.
-/
import Mathlib
import StackVM.Builtin.Call
import StackVM.Proofs.Traversal

namespace StackVM

namespace Value

variable {s key : Value} {h : Heap} {i : Int64} {n j : Nat}

/-! ### Indexing -/

/-- An index between the two ends, counted from the end if it is negative. -/
lemma position?_of_mem (hlow : -(n : Int) ≤ i.toInt) (hhigh : i.toInt < n) :
    position? i n = some (if i.toInt < 0 then i.toInt + n else i.toInt).toNat := by
  rw [position?]
  split
  next hneg => exact if_pos ⟨by omega, by omega⟩
  next hneg => exact if_pos ⟨by omega, by omega⟩

lemma position?_of_not_mem (hi : i.toInt < -(n : Int) ∨ (n : Int) ≤ i.toInt) :
    position? i n = Option.none := by
  rw [position?]
  split
  next hneg => exact if_neg (by omega)
  next hneg => exact if_neg (by omega)

lemma position_run (t : TypeTag) (hkey : key.asInt? = some i) (hj : position? i n = some j) :
    position t key n h = .ok j h := by
  simp only [position, hkey, hj]
  rfl

lemma position_run_none (t : TypeTag) (hkey : key.asInt? = some i)
    (hj : position? i n = Option.none) :
    position t key n h = .error (.indexOutOfRange t) h := by
  simp only [position, hkey, hj]
  rfl

/-- A range resolves an index as the other sequences do. -/
lemma get?_eq_position? (r : Range) (i : Int64) :
    r.get? i = (position? i r.size).bind r.nth? := by
  rw [Range.get?, position?]
  generalize (if i.toInt < 0 then i.toInt + r.size else i.toInt) = k
  by_cases hk : 0 ≤ k ∧ k < r.size
  · simp [hk]
  · rw [if_neg hk, Option.bind_none]
    split
    next hnonneg => exact if_neg (by omega)
    next => rfl

lemma position?_lt (hj : position? i n = some j) : j < n := by
  rw [position?, Option.ite_none_right_eq_some] at hj
  obtain ⟨hk, hj⟩ := hj
  obtain rfl := Option.some.inj hj
  omega

/-- **Indexing** gives the item at the position that the index designates. -/
lemma getItem_of_position (hs : s.isSequence = true) (hdict : ∀ r, s ≠ .dict r)
    (hkey : key.asInt? = some i) (hj : position? i (h.contents s).length = some j) :
    ∃ v m, s.getItem key h = .ok v { h with idents := m } ∧
      (h.contents s)[j]? = some v.content := by
  have hlt := position?_lt hj
  cases s with
  | list r =>
      rw [Heap.contents, List.length_map, Array.length_toList] at hj hlt
      refine ⟨(h.list r)[j], h.idents, ?_, ?_⟩
      · rw [getItem, bind_of_ok (Eval.get_run h), bind_of_ok (position_run .list hkey hj),
          Array.getElem?_eq_getElem hlt]
        rfl
      · rw [Heap.getElem?_contents_list, Array.getElem?_eq_getElem hlt, Option.map_some]
  | tuple ident items =>
      rw [Heap.contents, List.length_map] at hj hlt
      refine ⟨items[j], h.idents, ?_, ?_⟩
      · rw [getItem, bind_of_ok (position_run .tuple hkey hj), List.getElem?_eq_getElem hlt]
        rfl
      · rw [Heap.contents, List.getElem?_map, List.getElem?_eq_getElem hlt, Option.map_some]
  | str ident s =>
      rw [Heap.contents, List.length_map] at hj hlt
      refine ⟨.str (.made h.idents) s.toList[j].toString, h.idents + 1, ?_, ?_⟩
      · rw [String.length_toList] at hj
        rw [getItem, bind_of_ok (position_run .str hkey hj), Text.charAt?_eq_getElem?,
          List.getElem?_eq_getElem hlt]
        rfl
      · rw [Heap.contents, List.getElem?_map, List.getElem?_eq_getElem hlt, Option.map_some]
        rfl
  | range r =>
      rw [Heap.contents, List.length_map, List.length_range] at hj hlt
      refine ⟨.int (r.nth j), h.idents, ?_, ?_⟩
      · simp only [getItem, hkey, get?_eq_position?, hj, Option.bind_some, Range.nth?, if_pos hlt]
        rfl
      · rw [Heap.getElem?_contents_range, Range.nth?, if_pos hlt]
        rfl
  | dict r => exact absurd rfl (hdict r)
  | _ => cases hs

/-- An index that designates no position is an error. -/
lemma getItem_of_no_position (hs : s.isSequence = true) (hdict : ∀ r, s ≠ .dict r)
    (hkey : key.asInt? = some i) (hj : position? i (h.contents s).length = Option.none) :
    ∃ t, s.getItem key h = .error (.indexOutOfRange t) h := by
  cases s with
  | list r =>
      rw [Heap.contents, List.length_map, Array.length_toList] at hj
      rw [getItem, bind_of_ok (Eval.get_run h)]
      exact ⟨.list, bind_error_iff.mpr (.inl (position_run_none .list hkey hj))⟩
  | tuple ident items =>
      rw [Heap.contents, List.length_map] at hj
      exact ⟨.tuple, bind_error_iff.mpr (.inl (position_run_none .tuple hkey hj))⟩
  | str ident s =>
      rw [Heap.contents, List.length_map, String.length_toList] at hj
      exact ⟨.str, bind_error_iff.mpr (.inl (position_run_none .str hkey hj))⟩
  | range r =>
      rw [Heap.contents, List.length_map, List.length_range] at hj
      refine ⟨.range, ?_⟩
      simp only [getItem, hkey, get?_eq_position?, hj, Option.bind_none]
      rfl
  | dict r => exact absurd rfl (hdict r)
  | _ => cases hs

/-! ### Length, truth and the list of items -/

/-- A sequence is true when it has items. -/
lemma truth_iff (hs : s.isSequence = true) : h.truth s = true ↔ h.contents s ≠ [] := by
  cases s with
  | str ident s => simp [Heap.truth, Heap.contents]
  | tuple ident items => simp [Heap.truth, Heap.contents]
  | list r => simp [Heap.truth, Heap.contents]
  | dict r => simp [Heap.truth, Heap.contents, Dict.keys, Dict.size]
  | range r => simp [Heap.truth, Heap.contents, Range.isEmpty]
  | _ => cases hs

lemma evaluate_len (hs : s.isSequence = true) (hlt : (h.contents s).length < 0x8000000000000000) :
    ∃ i : Int64, Builtin.len.evaluate ⟨[s], []⟩ h = .ok (.int i) h ∧
      i.toInt = (h.contents s).length := by
  refine ⟨.ofNat (h.contents s).length, ?_, Int64.toInt_ofNat_of_lt hlt⟩
  change Eval.ofExcept (Builtin.length h s) h = _
  rw [Builtin.length, h.len?_eq hs]
  change Eval.ofExcept (if _ then _ else _) h = _
  rw [if_pos hlt]
  rfl

/-- The list of the items of a value. -/
lemma evaluate_list_eq (v : Value) :
    Builtin.list.evaluate ⟨[v], []⟩ h = (v.collect >>= Eval.newList) h :=
  rfl

lemma collect_of_ne_iter (hiter : ∀ r, s ≠ .iter r) : s.collect = s.items := by
  cases s with
  | iter r => exact absurd rfl (hiter r)
  | _ => rfl

/-- A sequence is no iterator. -/
lemma collect_of_isSequence (hs : s.isSequence = true) : s.collect = s.items := by
  refine collect_of_ne_iter ?_
  rintro r rfl
  cases hs

lemma evaluate_list_of_le (hs : s.isSequence = true) (hle : (h.contents s).length ≤ 33554432) :
    ∃ r h', Builtin.list.evaluate ⟨[s], []⟩ h = .ok (.list r) h' ∧
      (h'.list r).toList.map content = h.contents s := by
  obtain ⟨got, m, hitems, hgot⟩ := items_of_le hs hle
  rw [evaluate_list_eq, collect_of_isSequence hs, bind_of_ok hitems]
  refine ⟨h.lists.next, { h with idents := m, lists := h.lists.alloc got }, rfl, ?_⟩
  rw [Heap.list, Store.get?_alloc_self, Option.getD_some, hgot]

lemma evaluate_list_of_lt (hs : s.isSequence = true) (hlt : 33554432 < (h.contents s).length) :
    Builtin.list.evaluate ⟨[s], []⟩ h = .error (.sequenceTooLarge (h.contents s).length) h := by
  rw [evaluate_list_eq, collect_of_isSequence hs]
  exact bind_error_iff.mpr (.inl (items_of_lt hs hlt))

/-- What `list` gives of a sequence. -/
lemma contents_of_evaluate_list {l : Ref .list} {h' : Heap} (hs : s.isSequence = true)
    (hlist : Builtin.list.evaluate ⟨[s], []⟩ h = .ok (.list l) h') :
    (h.contents s).length ≤ 33554432 ∧ (h'.list l).toList.map content = h.contents s := by
  rcases Nat.lt_or_ge 33554432 (h.contents s).length with hlt | hle
  · rw [evaluate_list_of_lt hs hlt] at hlist
    cases hlist
  · obtain ⟨r, g, hr, hcontents⟩ := evaluate_list_of_le hs hle
    rw [hr] at hlist
    cases hlist
    exact ⟨hle, hcontents⟩

/-- Nothing but a sequence and an iterator has a list of its items. -/
lemma isSequence_of_evaluate_list {w : Value} {h' : Heap}
    (hlist : Builtin.list.evaluate ⟨[s], []⟩ h = .ok w h') (hiter : ∀ r, s ≠ .iter r) :
    s.isSequence = true := by
  by_contra hs
  rw [evaluate_list_eq, collect_of_ne_iter hiter] at hlist
  obtain ⟨items, h₁, hitems, -⟩ := bind_ok_iff.mp hlist
  rw [items_of_not_isSequence (Bool.not_eq_true _ ▸ hs)] at hitems
  cases hitems

end Value

/-! ### All accounts agree -/

/-- A new iterator over `s` goes through the values `xs`: after each number of steps that the items
allow, it tells how many are left, gives all of these when it is drained, and is then at its end.
In between, anything may happen that leaves `s` as it is in `h`. -/
def Heap.Traverses (h : Heap) (s : Value) (xs : List Value) : Prop :=
  ∃ it, s.iterator h = .ok it h ∧ ∀ gs : List Heap,
    gs.length ≤ xs.length → (∀ g ∈ gs, s.Unmodified h g) →
    ∃ vs it', it.nextEach gs = .ok (vs, it') ∧
      vs.map Value.content = (xs.take gs.length).map Value.content ∧
      ∀ g, s.Unmodified h g → it'.sizeHint g = xs.length - gs.length ∧
        ∃ got last g', it'.drain g = .ok (got, last) g' ∧
          got.toList.map Value.content = (xs.drop gs.length).map Value.content ∧
          ∀ g'', s.Unmodified h g'' → last.next g'' = .ok none g''

/-- The values `xs` are the items of `s` by every account. An item is known by its content, since
each character of a string is made anew. -/
structure Heap.Enumerates (h : Heap) (s : Value) (xs : List Value) : Prop where
  contents : xs.map Value.content = h.contents s
  len : ∃ n : Int64, Builtin.len.evaluate ⟨[s], []⟩ h = .ok (.int n) h ∧ n.toInt = xs.length
  truth : h.truth s = true ↔ xs ≠ []
  /-- An index in bounds; a negative one counts from the end. -/
  item : (∀ r, s ≠ .dict r) → ∀ (key : Value) (i : Int64), key.asInt? = some i →
    -(xs.length : Int) ≤ i.toInt → i.toInt < xs.length →
    ∃ v h' x, s.getItem key h = .ok v h' ∧
      xs[(if i.toInt < 0 then i.toInt + xs.length else i.toInt).toNat]? = some x ∧
      v.content = x.content
  /-- Any other index. -/
  noItem : (∀ r, s ≠ .dict r) → ∀ (key : Value) (i : Int64), key.asInt? = some i →
    (i.toInt < -(xs.length : Int) ∨ (xs.length : Int) ≤ i.toInt) →
    ∃ c, s.getItem key h = .error c h ∧ c.cls = .indexError
  traversal : h.Traverses s xs

/-- **Traversal**: whatever part of a sequence has been gone through, the rest is to come. -/
lemma Heap.traverses_of_contents {h : Heap} {s : Value} {xs : List Value}
    (hs : s.isSequence = true) (hxs : xs.map Value.content = h.contents s)
    (hle : xs.length ≤ 33554432) : h.Traverses s xs := by
  obtain ⟨it, hit, hrest, hsteady, hcountable, hsource⟩ :=
    Value.iterator_of_isSequence (h := h) hs
  refine ⟨it, hit, fun gs hgs hu => ?_⟩
  have hlen : (it.rest h).length = xs.length := by rw [hrest, ← hxs, List.length_map]
  obtain ⟨vs, it', hvs, htake, hit'⟩ := Iter.nextEach_eq hsteady
    (hcountable (by rwa [← hrest, hlen]))
    (fun g hg => hsource g (hu g hg)) (hlen.symm ▸ hgs)
  rw [hrest, ← hxs, ← List.map_take] at htake
  refine ⟨vs, it', hvs, htake, fun g hg => ?_⟩
  -- The iterator is taken up again in the heap `g`.
  have hg' : it'.source.Unmodified h g := hit'.source ▸ hsource g hg
  have hsteady' := hit'.steady.of_unmodified hg'
  have hrest' : it'.rest g = (xs.drop gs.length).map Value.content := by
    rw [Iter.rest_of_unmodified hg', hit'.rest, hrest, ← hxs, List.map_drop]
  have hlen' : (it'.rest g).length = xs.length - gs.length := by
    rw [hrest', List.length_map, List.length_drop]
  obtain ⟨got, last, m, hdrain, hgot, hlast⟩ := Iter.drain_of_le hsteady' hit'.countable (by omega)
  refine ⟨(Iter.sizeHint_eq hsteady').trans hlen', got, last, _, hdrain, hgot.trans hrest', ?_⟩
  exact fun g'' hg'' => hlast.next_eq_none
    (hg'.symm.trans (hit'.source ▸ hsource g'' hg''))

/-- **Sequences are coherent**: a string, tuple, list, dict or range has a list of its items, or it
has more than `33554432` items and none of them is made. The items of that list are what length,
truth, indexing and iteration tell of. -/
theorem sequences_are_coherent {h : Heap} {s : Value} (hs : s.isSequence = true) :
    ((h.contents s).length ≤ 33554432 ∧
      ∃ r h', Builtin.list.evaluate ⟨[s], []⟩ h = .ok (.list r) h' ∧
        h.Enumerates s (h'.list r).toList) ∨
    (33554432 < (h.contents s).length ∧
      ∃ c, Builtin.list.evaluate ⟨[s], []⟩ h = .error c h ∧ c.cls = .memoryError) := by
  rcases Nat.lt_or_ge 33554432 (h.contents s).length with hlt | hle
  · exact .inr ⟨hlt, _, Value.evaluate_list_of_lt hs hlt, rfl⟩
  obtain ⟨r, h', hlist, hxs⟩ := Value.evaluate_list_of_le hs hle
  have hlen : (h.contents s).length = (h'.list r).toList.length := by rw [← hxs, List.length_map]
  refine .inl ⟨hle, r, h', hlist, ?_⟩
  generalize (h'.list r).toList = xs at hxs hlen
  constructor
  case contents => exact hxs
  case len =>
    rw [← hlen]
    exact Value.evaluate_len hs (by omega)
  case truth => rw [Value.truth_iff hs, ← hxs, ne_eq, List.map_eq_nil_iff]
  case item =>
    intro hdict key i hkey hlow hhigh
    have hposition := Value.position?_of_mem hlow hhigh
    rw [← hlen] at hposition
    obtain ⟨v, m, hitem, hv⟩ := Value.getItem_of_position hs hdict hkey hposition
    rw [hlen] at hv
    rw [← hxs, List.getElem?_map, Option.map_eq_some_iff] at hv
    obtain ⟨x, hx, hcontent⟩ := hv
    exact ⟨v, _, x, hitem, hx, hcontent.symm⟩
  case noItem =>
    intro hdict key i hkey hi
    obtain ⟨t, hitem⟩ := Value.getItem_of_no_position hs hdict hkey
      (hlen ▸ Value.position?_of_not_mem hi)
    exact ⟨_, hitem, rfl⟩
  case traversal => exact Heap.traverses_of_contents hs hxs (by omega)

/-- A text of two characters that are three bytes. -/
theorem accented_text_is_enumerated :
    (Value.str default "né").isSequence = true ∧
      ∃ r h', Builtin.list.evaluate ⟨[.str default "né"], []⟩ .empty = .ok (.list r) h' ∧
        (h'.list r).size = 2 ∧ Heap.empty.Enumerates (.str default "né") (h'.list r).toList := by
  refine ⟨rfl, ?_⟩
  rcases sequences_are_coherent (h := .empty) (s := .str default "né") rfl with
    ⟨-, r, h', hlist, hitems⟩ | ⟨hlt, -⟩
  · refine ⟨r, h', hlist, ?_, hitems⟩
    rw [← Array.length_toList, ← List.length_map (f := Value.content), hitems.contents]
    rfl
  · exact absurd hlt (by decide)

end StackVM
