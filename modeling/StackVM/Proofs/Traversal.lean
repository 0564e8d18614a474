/-
Iterators as the items to come. Each kind of value is gone through in a way of its own: a range by
computing, a list and a dict by looking at them anew, a tuple by an index and a string by a number
of bytes. All of them give the same account: some items are to come, `next` gives the first of
them, and `drain` gives them all.

* `Value.content`: a value up to the identity of a string, which is new each time that it is made;
* `Heap.contents`: the items of a sequence; `Iter.rest`: the items to come;
* `Iter.Steady`: a dict still has the size that it had; `Iter.Countable`: no position in a range
  has more than 63 bits;
* `Value.Unmodified`, `Iter.source`: the object that an iterator looks at is as it was;
* `Iter.next_nil`, `Iter.next_cons`: **one step**;
* `Iter.nextEach_eq`, `Iter.takeOnto_eq`: steps one after the other, and all of them;
* `Iter.drain_of_le`, `Iter.drain_of_lt`: draining, and its limit;
* `Value.iterator_of_isSequence`, `Value.items_of_le`: a new iterator over a sequence, and all of
  its items.
-/
import Mathlib
import StackVM.Proofs.Intact
import StackVM.Proofs.Ordering

namespace StackVM

namespace Value

/-- The value, whichever of the strings with its text it is. -/
def content : Value → Value
  | .str _ s => .str default s
  | v => v

/-- The value has items that can be counted and listed. -/
def isSequence : Value → Bool
  | .str _ _ | .tuple _ _ | .list _ | .dict _ | .range _ => true
  | _ => false

/-- The value is as it was in the heap `h`, if it is one that can change. -/
def Unmodified (h h' : Heap) : Value → Prop
  | .list r => h'.list r = h.list r
  | .dict r => h'.dict r = h.dict r
  | _ => True

lemma Unmodified.symm {h h' : Heap} {v : Value} (hu : v.Unmodified h h') : v.Unmodified h' h := by
  cases v with
  | list r => exact Eq.symm hu
  | dict r => exact Eq.symm hu
  | _ => trivial

lemma Unmodified.trans {h h' h'' : Heap} {v : Value} (hu : v.Unmodified h h')
    (hu' : v.Unmodified h' h'') : v.Unmodified h h'' := by
  cases v with
  | list r => exact Eq.trans hu' hu
  | dict r => exact Eq.trans hu' hu
  | _ => trivial

/-- An identity that has been given out changes no value. -/
lemma Unmodified.idents (h : Heap) (n : Nat) (v : Value) :
    v.Unmodified h { h with idents := n } := by
  cases v with
  | list r => rfl
  | dict r => rfl
  | _ => trivial

end Value

/-- The contents of the items of a sequence. -/
def Heap.contents (h : Heap) : Value → List Value
  | .range r => (List.range r.size).map fun i => .int (r.nth i)
  | .list r => (h.list r).toList.map Value.content
  | .tuple _ items => items.map Value.content
  | .dict r => (h.dict r).keys.map Value.content
  | .str _ s => s.toList.map fun c => .str default c.toString
  | _ => []

namespace Heap

variable (h : Heap)

lemma getElem?_contents_range (r : Range) (i : Nat) :
    (h.contents (.range r))[i]? = ((r.nth? i).map Value.int).map Value.content := by
  rw [contents, Range.nth?]
  split
  next hi => simp [hi, Value.content]
  next hi => simp [hi]

lemma getElem?_contents_list (r : Ref .list) (i : Nat) :
    (h.contents (.list r))[i]? = (h.list r)[i]?.map Value.content := by
  rw [contents, List.getElem?_map, Array.getElem?_toList]

lemma getElem?_contents_dict (r : Ref .dict) (i : Nat) :
    (h.contents (.dict r))[i]? = ((h.dict r).keyAt? i).map Value.content := by
  simp [contents, Dict.keys, Dict.keyAt?]

/-- A sequence has as many items as its length says. -/
lemma len?_eq {s : Value} (hs : s.isSequence = true) : h.len? s = some (h.contents s).length := by
  cases s with
  | str i s => simp [len?, contents, String.length_toList]
  | tuple i items => simp [len?, contents]
  | list r => simp [len?, contents]
  | dict r => simp [len?, contents, Dict.keys, Dict.size]
  | range r => simp [len?, contents]
  | _ => cases hs

end Heap

/-- A position that 63 bits hold is an index that does not count from the end. -/
lemma Range.get?_ofNat (r : Range) {i : Nat} (hi : i < 0x8000000000000000) :
    r.get? (Int64.ofNat i) = r.nth? i := by
  have hfront : ¬ (i : Int) < 0 := by omega
  rw [get?, Int64.toInt_ofNat_of_lt hi, if_neg hfront, if_pos (by omega), Int.toNat_natCast]

/-- A sequence of no more than 2 ^ 25 items fits. -/
lemma Eval.ofLimit_of_le {n : Nat} (hn : n ≤ 33554432) (h : Heap) :
    Eval.ofLimit (checkSequence n valueBytes) h = .ok () h := by
  rw [checkSequence, if_pos (by rw [maxSequenceBytes, valueBytes]; omega)]
  rfl

lemma Eval.ofLimit_of_lt {n : Nat} (hn : 33554432 < n) (h : Heap) :
    Eval.ofLimit (checkSequence n valueBytes) h = .error (.sequenceTooLarge n) h := by
  rw [checkSequence, if_neg (by rw [maxSequenceBytes, valueBytes]; omega)]
  rfl

namespace Iter

/-! ### The items to come -/

/-- The contents of the items to come. -/
def rest (h : Heap) : Iter → List Value
  | .range r index => (h.contents (.range r)).drop index
  | .list r index => (h.contents (.list r)).drop index
  | .tuple items index => (items.toList.map Value.content).drop index
  | .dict r _ index => (h.contents (.dict r)).drop index
  | .str text offset => (Text.suffixAt text offset).toList.map fun c => .str default c.toString

/-- A dict has the size that it had when the iterator was made. -/
def Steady (h : Heap) : Iter → Prop
  | .dict r size _ => (h.dict r).size = size
  | _ => True

/-- The positions of the items to come have no more than 63 bits. An iterator over a range that
has more of them stops before its end. -/
def Countable : Iter → Prop
  | .range r index => index < r.size → r.size ≤ 0x8000000000000000
  | _ => True

/-- The object that an iterator looks at again at each step. -/
def source : Iter → Value
  | .list r _ => .list r
  | .dict r _ _ => .dict r
  | _ => .none

variable {it : Iter} {h h' : Heap} {x : Value} {xs : List Value}

/-- An iterator over an object that is as it was has the same items to come. -/
lemma rest_of_unmodified (hu : it.source.Unmodified h h') : it.rest h' = it.rest h := by
  cases it with
  | list r index => rw [rest, rest, Heap.contents, Heap.contents, show h'.list r = h.list r from hu]
  | dict r size index =>
      rw [rest, rest, Heap.contents, Heap.contents, show h'.dict r = h.dict r from hu]
  | _ => rfl

lemma Steady.of_unmodified (hs : it.Steady h) (hu : it.source.Unmodified h h') : it.Steady h' := by
  cases it with
  | dict r size index =>
      rw [Steady, show h'.dict r = h.dict r from hu]
      exact hs
  | _ => trivial

/-- The size hint is the number of items to come. -/
lemma sizeHint_eq (hs : it.Steady h) : it.sizeHint h = (it.rest h).length := by
  cases it with
  | range r index => simp [sizeHint, rest, Heap.contents]
  | list r index => simp [sizeHint, rest, Heap.contents]
  | tuple items index => simp [sizeHint, rest]
  | dict r size index =>
      obtain rfl : (h.dict r).size = size := hs
      simp [sizeHint, rest, Heap.contents, Dict.keys, Dict.size]
  | str text offset => rw [sizeHint, rest, List.length_map, String.length_toList]

/-! ### Steps -/

/-- The iterator gives an item with the content `x` and has the items `xs` to come after it. At
most a string has been made on the way. -/
def Gives (it : Iter) (h : Heap) (x : Value) (xs : List Value) : Prop :=
  ∃ v it' n, it.next h = .ok (some (v, it')) { h with idents := n } ∧ v.content = x ∧
    it'.rest h = xs ∧ it'.Steady h ∧ it'.Countable ∧ it'.source = it.source

/-- An iterator that looks up the item at an index. -/
lemma next_of_lookup (it' : Iter) {items : List Value} {index : Nat} {item : Option Value}
    (hrest : it.rest h = items.drop index) (hrest' : it'.rest h = items.drop (index + 1))
    (hnext : it.next h = .ok (item.map (·, it')) h)
    (hitem : items[index]? = item.map Value.content) (hs : it'.Steady h) (hc : it'.Countable)
    (hsource : it'.source = it.source) :
    (it.rest h = [] → it.next h = .ok none h) ∧
      ∀ x xs, it.rest h = x :: xs → it.Gives h x xs := by
  rw [hrest, hnext]
  refine ⟨?_, ?_⟩
  · intro hnil
    rw [← List.head?_drop, hnil, List.head?_nil, eq_comm, Option.map_eq_none_iff] at hitem
    rw [hitem, Option.map_none]
  · intro x xs hcons
    rw [← List.head?_drop, hcons, List.head?_cons, eq_comm, Option.map_eq_some_iff] at hitem
    obtain ⟨v, rfl, hv⟩ := hitem
    refine ⟨v, it', h.idents, hnext, hv, ?_, hs, hc, hsource⟩
    rw [hrest', ← List.tail_drop, hcons, List.tail_cons]

/-- **One step**: the next item is the first of those to come. -/
lemma next_rest (hs : it.Steady h) (hc : it.Countable) :
    (it.rest h = [] → it.next h = .ok none h) ∧
      ∀ x xs, it.rest h = x :: xs → it.Gives h x xs := by
  cases it with
  | range r index =>
      by_cases hi : index < 0x8000000000000000
      · refine next_of_lookup (.range r (index + 1)) rfl rfl ?_
          (h.getElem?_contents_range r index) trivial (fun hlt => hc (Nat.lt_of_succ_lt hlt)) rfl
        rw [next, if_pos hi, r.get?_ofNat hi, Option.map_map]
        rfl
      · -- no item is that far from the start
        have hend : rest h (.range r index) = [] := by
          have hle : r.size ≤ index := not_lt.mp fun hlt => hi (hlt.trans_le (hc hlt))
          simpa [rest, Heap.contents] using hle
        refine ⟨fun _ => congrFun (if_neg hi) h, fun x xs hcons => ?_⟩
        rw [hend] at hcons
        cases hcons
  | list r index =>
      exact next_of_lookup (.list r (index + 1)) rfl rfl rfl
        (h.getElem?_contents_list r index) trivial trivial rfl
  | tuple items index =>
      refine next_of_lookup (.tuple items (index + 1)) rfl rfl rfl ?_ trivial trivial rfl
      rw [List.getElem?_map, Array.getElem?_toList]
  | dict r size index =>
      refine next_of_lookup (.dict r size (index + 1)) rfl rfl ?_
        (h.getElem?_contents_dict r index) hs trivial rfl
      rw [next, bind_of_ok (Eval.get_run h)]
      exact congrFun (if_pos hs) h
  | str text offset =>
      cases hchar : String.Pos.Raw.get? text ⟨offset⟩ with
      | none =>
          have hend : rest h (.str text offset) = [] := by
            rw [rest, Text.suffixAt_of_get?_eq_none hchar, List.map_nil]
          refine ⟨fun _ => by rw [next, hchar]; rfl, fun x xs hcons => ?_⟩
          rw [hend] at hcons
          cases hcons
      | some c =>
          have hmore : rest h (.str text offset) =
              .str default c.toString :: rest h (.str text (offset + c.utf8Size)) := by
            rw [rest, Text.suffixAt_of_get? hchar, List.map_cons, rest]
          rw [hmore]
          refine ⟨fun hnil => absurd hnil (List.cons_ne_nil _ _), fun x xs hcons => ?_⟩
          cases hcons
          refine ⟨.str (.made h.idents) c.toString, .str text (offset + c.utf8Size),
            h.idents + 1, ?_, rfl, rfl, trivial, trivial, rfl⟩
          rw [next, hchar]
          rfl

lemma next_nil (hs : it.Steady h) (hc : it.Countable) (hrest : it.rest h = []) :
    it.next h = .ok none h :=
  (next_rest hs hc).1 hrest

lemma next_cons (hs : it.Steady h) (hc : it.Countable) (hrest : it.rest h = x :: xs) :
    it.Gives h x xs :=
  (next_rest hs hc).2 x xs hrest

/-- The iterator `last` has the items `xs` to come, and goes through the same object as `it`. -/
structure Reaches (it : Iter) (h : Heap) (last : Iter) (xs : List Value) : Prop where
  rest : last.rest h = xs
  steady : last.Steady h
  countable : last.Countable
  source : last.source = it.source

/-- The items that one step in each of the heaps gives, and where the iterator stands then. -/
def nextEach : Iter → List Heap → Except Cause (List Value × Iter)
  | it, [] => .ok ([], it)
  | it, h :: hs =>
    match it.next h with
    | .ok (some (v, it')) _ => (it'.nextEach hs).map fun (vs, last) => (v :: vs, last)
    | .ok none _ => .ok ([], it)
    | .error c _ => .error c

/-- **Several steps**: they give the first of the items to come, if the object has been left as
it was in between. -/
lemma nextEach_eq {gs : List Heap} (hs : it.Steady h) (hc : it.Countable)
    (hu : ∀ g ∈ gs, it.source.Unmodified h g) (hlen : gs.length ≤ (it.rest h).length) :
    ∃ vs last, it.nextEach gs = .ok (vs, last) ∧
      vs.map Value.content = (it.rest h).take gs.length ∧
      it.Reaches h last ((it.rest h).drop gs.length) := by
  induction gs generalizing it with
  | nil => exact ⟨[], it, rfl, rfl, rfl, hs, hc, rfl⟩
  | cons g gs ih =>
      rw [List.forall_mem_cons] at hu
      obtain ⟨x, xs, hrest⟩ := List.exists_cons_of_length_pos (Nat.zero_lt_of_lt hlen)
      have hrest' := rest_of_unmodified hu.1
      obtain ⟨v, it', n, hnext, hv, hxs, hs', hc', hsource⟩ :=
        next_cons (hs.of_unmodified hu.1) hc (hrest'.trans hrest)
      -- What the step leaves is told in the heap `g`, and the induction goes on in `h`.
      have hu' : it'.source.Unmodified g h := hsource ▸ hu.1.symm
      rw [← rest_of_unmodified hu'] at hxs
      rw [hrest] at hlen ⊢
      obtain ⟨vs, last, hvs, htake, hlast⟩ := ih (hs'.of_unmodified hu') hc'
        (hsource ▸ hu.2) (hxs ▸ Nat.le_of_succ_le_succ hlen)
      refine ⟨v :: vs, last, ?_, ?_, ?_⟩
      · rw [nextEach, hnext]
        change (it'.nextEach gs).map _ = _
        rw [hvs]
        rfl
      · rw [List.map_cons, htake, hv, hxs, List.length_cons, List.take_succ_cons]
      · rw [List.length_cons, List.drop_succ_cons, ← hxs]
        exact ⟨hlast.rest, hlast.steady, hlast.countable, hlast.source.trans hsource⟩

/-- **All steps**: they give the items to come, and nothing is left. -/
lemma takeOnto_eq {n : Nat} (taken : Array Value) (hs : it.Steady h) (hc : it.Countable)
    (hn : (it.rest h).length < n) :
    ∃ got last m, it.takeOnto n taken h = .ok (taken ++ got, last) { h with idents := m } ∧
      got.toList.map Value.content = it.rest h ∧ it.Reaches h last [] := by
  induction n generalizing it h taken with
  | zero => exact absurd hn (Nat.not_lt_zero _)
  | succ n ih =>
      cases hrest : it.rest h with
      | nil =>
          refine ⟨#[], it, h.idents, ?_, rfl, hrest, hs, hc, rfl⟩
          rw [takeOnto, bind_of_ok (next_nil hs hc hrest), Array.append_empty]
          rfl
      | cons x xs =>
          obtain ⟨v, it', m, hnext, hv, hxs, hs', hc', hsource⟩ := next_cons hs hc hrest
          rw [hrest, List.length_cons] at hn
          have hu : it'.source.Unmodified h { h with idents := m } := .idents h m _
          have hrest' := (rest_of_unmodified hu).trans hxs
          obtain ⟨got, last, m', htake, hgot, hlast⟩ := ih (taken.push v)
            (hs'.of_unmodified hu) hc' (hrest' ▸ Nat.lt_of_succ_lt_succ hn)
          have hu' : last.source.Unmodified { h with idents := m } h := .idents _ h.idents _
          refine ⟨#[v] ++ got, last, m', ?_, ?_, ?_⟩
          · rw [takeOnto, bind_of_ok hnext]
            change it'.takeOnto n _ _ = _
            rw [htake, ← Array.append_assoc, Array.push_eq_append]
          · rw [Array.toList_append, List.map_append, hgot, hrest']
            exact congrArg (· :: xs) hv
          · exact ⟨(rest_of_unmodified hu').trans hlast.rest, hlast.steady.of_unmodified hu',
              hlast.countable, hlast.source.trans hsource⟩

/-! ### Draining -/

/-- Draining gives the items to come, unless they are too many. -/
lemma drain_of_le (hs : it.Steady h) (hc : it.Countable) (hle : (it.rest h).length ≤ 33554432) :
    ∃ got last m, it.drain h = .ok (got, last) { h with idents := m } ∧
      got.toList.map Value.content = it.rest h ∧ it.Reaches h last [] := by
  obtain ⟨got, last, m, htake, hgot, hlast⟩ :=
    takeOnto_eq #[] hs hc (Nat.lt_succ_self _)
  refine ⟨got, last, m, ?_, hgot, hlast⟩
  rw [drain, bind_of_ok (Eval.get_run h), sizeHint_eq hs, bind_of_ok (Eval.ofLimit_of_le hle h),
    htake, Array.empty_append]

/-- Too many items are refused before the first of them. -/
lemma drain_of_lt (hs : it.Steady h) (hlt : 33554432 < (it.rest h).length) :
    it.drain h = .error (.sequenceTooLarge (it.rest h).length) h := by
  rw [drain, bind_of_ok (Eval.get_run h), sizeHint_eq hs]
  exact bind_error_iff.mpr (.inl (Eval.ofLimit_of_lt hlt h))

/-- An iterator at its end gives nothing, whatever else happens. -/
lemma Reaches.next_eq_none {last : Iter} (hlast : it.Reaches h last [])
    (hu : it.source.Unmodified h h') : last.next h' = .ok none h' := by
  rw [← hlast.source] at hu
  exact next_nil (hlast.steady.of_unmodified hu) hlast.countable
    ((rest_of_unmodified hu).trans hlast.rest)

end Iter

namespace Value

variable {s : Value} {h : Heap}

/-- A new iterator over a sequence has all of its items to come, and can go through them if they
are not too many. -/
lemma iterator_of_isSequence (hs : s.isSequence = true) :
    ∃ it, s.iterator h = .ok it h ∧ it.rest h = h.contents s ∧ it.Steady h ∧
      ((h.contents s).length ≤ 33554432 → it.Countable) ∧
      ∀ g, s.Unmodified h g → it.source.Unmodified h g := by
  cases s with
  | str i s =>
      refine ⟨_, rfl, ?_, trivial, fun _ => trivial, fun g _ => trivial⟩
      rw [Iter.rest, ← String.empty_append (s := s)]
      exact congrArg _ (congrArg _ (Text.suffixAt_append "" s))
  | tuple i items => exact ⟨_, rfl, rfl, trivial, fun _ => trivial, fun g _ => trivial⟩
  | list r => exact ⟨_, rfl, rfl, trivial, fun _ => trivial, fun g hu => hu⟩
  | dict r => exact ⟨_, rfl, rfl, rfl, fun _ => trivial, fun g hu => hu⟩
  | range r =>
      refine ⟨_, rfl, rfl, trivial, fun hle _ => ?_, fun g _ => trivial⟩
      rw [Heap.contents, List.length_map, List.length_range] at hle
      omega
  | _ => cases hs

lemma items_of_le (hs : s.isSequence = true) (hle : (h.contents s).length ≤ 33554432) :
    ∃ got m, s.items h = .ok got { h with idents := m } ∧
      got.toList.map content = h.contents s := by
  obtain ⟨it, hit, hrest, hsteady, hcountable, -⟩ := iterator_of_isSequence (h := h) hs
  obtain ⟨got, last, m, hdrain, hgot, -⟩ :=
    Iter.drain_of_le hsteady (hcountable hle) (hrest ▸ hle)
  refine ⟨got, m, ?_, hgot.trans hrest⟩
  rw [items, bind_of_ok hit, bind_of_ok hdrain]
  rfl

lemma items_of_lt (hs : s.isSequence = true) (hlt : 33554432 < (h.contents s).length) :
    s.items h = .error (.sequenceTooLarge (h.contents s).length) h := by
  obtain ⟨it, hit, hrest, hsteady, -⟩ := iterator_of_isSequence (h := h) hs
  have hdrain := Iter.drain_of_lt hsteady (hrest ▸ hlt)
  rw [items, bind_of_ok hit, ← hrest]
  exact bind_error_iff.mpr (.inl hdrain)

lemma iterator_of_not_isSequence (hs : s.isSequence = false) :
    s.iterator h = .error (.notIterable s.typeTag) h := by
  cases s with
  | str _ _ | tuple _ _ | list _ | dict _ | range _ => cases hs
  | _ => rfl

lemma items_of_not_isSequence (hs : s.isSequence = false) :
    s.items h = .error (.notIterable s.typeTag) h :=
  bind_error_iff.mpr (.inl (iterator_of_not_isSequence hs))

end Value

end StackVM
