/-
The evaluation of values makes and changes no cell, and its results have no cells but those
that it was given or that stand in the heap.

* `Iter.next_keeps`, `Value.collect_keeps`: items;
* `Value.getItem_keeps`, `Value.compareOp_keeps`, `Value.arith_keeps`, `Value.unary_keeps`,
  `Value.inplace_keeps`, `Value.setItem_keeps`, `Value.deleteItem_keeps`: what instructions
  evaluate;
* `Builtin.call_keeps`, `ExcClass.call_keeps`, `Signature.bind_keeps`: calls;
* `Const.load_keeps`: constants.
-/
import StackVM.Proofs.CellScope

namespace StackVM

open Value (Within)
open Heap (Kept)

variable {n : Nat} {h₀ : Heap}

/-! ### Items -/

namespace Value

lemma iterator_keeps {v : Value} (hv : v.Within n) :
    Keeps (Kept n h₀) (Iter.Within n) v.iterator := by
  cases v with
  | dict r => exact Keeps.get.bind fun _ _ => .pure trivial
  | tuple ident items =>
      exact .pure fun v hi => within_tuple_iff.mp hv v (List.mem_toArray.mp hi)
  | range | list | str => exact .pure trivial
  | _ => exact .throw _

end Value

namespace Iter

/-- The next item and the iterator after it have no other cells. -/
lemma next_keeps {it : Iter} (hi : it.Within n) :
    Keeps (Kept n h₀) (fun step => ∀ p ∈ step, p.1.Within n ∧ p.2.Within n) it.next := by
  cases it with
  | range r index =>
      rw [next]
      split
      · refine .pure fun p hp => ?_
        obtain ⟨i, -, rfl⟩ := Option.map_eq_some_iff.mp hp
        exact ⟨trivial, trivial⟩
      · exact .pure fun p hp => absurd hp (Option.not_mem_none p)
  | list r index =>
      refine Keeps.get.bind fun h hh => .pure fun p hp => ?_
      obtain ⟨v, hv, rfl⟩ := Option.map_eq_some_iff.mp hp
      exact ⟨hh.within.list r v (Array.mem_of_getElem? hv), trivial⟩
  | tuple items index =>
      refine .pure fun p hp => ?_
      obtain ⟨v, hv, rfl⟩ := Option.map_eq_some_iff.mp hp
      exact ⟨hi v (Array.mem_of_getElem? hv), hi⟩
  | dict r size index =>
      refine Keeps.get.bind fun h hh => ?_
      dsimp only
      split
      · refine .pure fun p hp => ?_
        obtain ⟨k, hk, rfl⟩ := Option.map_eq_some_iff.mp hp
        exact ⟨(hh.within.dict r).keyAt? hk, trivial⟩
      · exact .throw _
  | str text offset =>
      rw [next]
      split
      · refine (Eval.newStr_keeps _).bind fun v hv => .pure fun p hp => ?_
        cases hp
        exact ⟨hv, trivial⟩
      · exact .pure fun p hp => absurd hp (Option.not_mem_none p)

lemma takeOnto_keeps {k : Nat} {it : Iter} {taken : Array Value} (hi : it.Within n)
    (ht : ∀ v ∈ taken, v.Within n) :
    Keeps (Kept n h₀) (fun p => (∀ v ∈ p.1, v.Within n) ∧ p.2.Within n) (it.takeOnto k taken) := by
  induction k generalizing it taken with
  | zero => exact .pure ⟨ht, hi⟩
  | succ k ih =>
      refine (next_keeps hi).bind fun step hstep => ?_
      cases step with
      | none => exact .pure ⟨ht, hi⟩
      | some step =>
          obtain ⟨hv, hi'⟩ := hstep step rfl
          refine ih hi' fun w hw => ?_
          rcases Array.mem_push.mp hw with hw | rfl
          · exact ht w hw
          · exact hv

lemma drain_keeps {it : Iter} (hi : it.Within n) :
    Keeps (Kept n h₀) (fun p => (∀ v ∈ p.1, v.Within n) ∧ p.2.Within n) it.drain := by
  refine Keeps.get.bind fun h _ => (Eval.ofLimit_keeps _).bind fun _ _ => ?_
  exact takeOnto_keeps hi fun v hv => absurd hv (Array.not_mem_empty v)

end Iter

namespace Value

lemma items_keeps {v : Value} (hv : v.Within n) :
    Keeps (Kept n h₀) (fun items => ∀ w ∈ items, w.Within n) v.items :=
  (iterator_keeps hv).bind fun _ hi => (Iter.drain_keeps hi).bind fun _ hp => .pure hp.1

lemma collect_keeps {v : Value} (hv : v.Within n) :
    Keeps (Kept n h₀) (fun items => ∀ w ∈ items, w.Within n) v.collect := by
  cases v with
  | iter r =>
      refine Keeps.get.bind fun h hh => (Iter.drain_keeps (hh.within.iter r)).bind fun p hp => ?_
      exact (Eval.setIter_keeps r hp.2).bind fun _ _ => .pure hp.1
  | _ => exact items_keeps hv

/-! ### Reading and comparing -/

lemma hashKey_keeps (v : Value) : Keeps (Kept n h₀) (fun _ => True) v.hashKey := by
  rw [hashKey]
  split
  · exact .pure trivial
  · exact .throw _

lemma position_keeps (t : TypeTag) (key : Value) (size : Nat) :
    Keeps (Kept n h₀) (fun _ => True) (position t key size) := by
  rw [position]
  split
  · exact .throw _
  · split
    · exact .pure trivial
    · exact .throw _

lemma itemAt_keeps (t : TypeTag) {item : Option Value} (hi : ∀ v ∈ item, v.Within n) :
    Keeps (Kept n h₀) (Within n) (itemAt t item) := by
  cases item with
  | none => exact .throw _
  | some v => exact .pure (hi v rfl)

lemma contains_keeps (v item : Value) : Keeps (Kept n h₀) (fun _ => True) (v.contains item) := by
  rw [contains.eq_def]
  split
  · exact .pure trivial
  · exact .throw _
  · exact Keeps.get.bind fun _ _ => .pure trivial
  · exact Keeps.get.bind fun _ _ => Keeps.get.bind fun _ _ => .pure trivial
  · exact Keeps.get.bind fun _ _ => (hashKey_keeps item).bind fun _ _ => .pure trivial
  · exact .pure trivial
  · exact .throw _

/-- An item that is read was in the value. -/
lemma getItem_keeps {v : Value} (hv : v.Within n) (key : Value) :
    Keeps (Kept n h₀) (Within n) (v.getItem key) := by
  rw [getItem.eq_def]
  split
  · rename_i r
    refine Keeps.get.bind fun h hh => (hashKey_keeps key).bind fun k _ => ?_
    split
    next value hvalue => exact .pure ((hh.within.dict r).get? hvalue)
    next => exact Keeps.get.bind fun _ _ => .throw _
  · rename_i r
    refine Keeps.get.bind fun h hh => (position_keeps _ key _).bind fun i _ => ?_
    exact itemAt_keeps _ fun w hw => hh.within.list r w (Array.mem_of_getElem? hw)
  · refine (position_keeps _ key _).bind fun i _ => itemAt_keeps _ fun w hw => ?_
    exact within_tuple_iff.mp hv w (List.mem_of_getElem? hw)
  · refine (position_keeps _ key _).bind fun i _ => ?_
    split
    · exact Eval.newStr_keeps _
    · exact .throw _
  · split
    · exact .throw _
    · refine itemAt_keeps _ fun w hw => ?_
      obtain ⟨i, -, rfl⟩ := Option.map_eq_some_iff.mp hw
      trivial
  · exact .throw _

lemma ordered_keeps (op : CompareOp) (l r : Value) :
    Keeps (Kept n h₀) (fun _ => True) (ordered op l r) := by
  rw [ordered.eq_def]
  split
  · exact .pure trivial
  · refine Keeps.get.bind fun h _ => ?_
    split
    · exact .pure trivial
    · exact .throw _

lemma isCaughtBy_keeps (exc handler : Value) :
    Keeps (Kept n h₀) (fun _ => True) (exc.isCaughtBy handler) := by
  rw [isCaughtBy.eq_def]
  dsimp only
  split
  · exact .pure trivial
  · exact .throw _

lemma compareOp_keeps (op : CompareOp) (l r : Value) :
    Keeps (Kept n h₀) (fun _ => True) (compareOp op l r) := by
  cases op with
  | eq => exact Keeps.get.bind fun _ _ => .pure trivial
  | ne => exact Keeps.get.bind fun _ _ => .pure trivial
  | lt => exact ordered_keeps .lt l r
  | le => exact ordered_keeps .le l r
  | gt => exact ordered_keeps .gt l r
  | ge => exact ordered_keeps .ge l r
  | isIn => exact contains_keeps r l
  | notIn => exact (contains_keeps r l).bind fun _ _ => .pure trivial
  | is => exact .pure trivial
  | isNot => exact .pure trivial
  | exceptionMatch => exact isCaughtBy_keeps l r

/-! ### Operators -/

lemma mem_repeatOnto {items rest : List Value} {k : Nat} {v : Value}
    (hv : v ∈ repeatOnto items k rest) : v ∈ items ∨ v ∈ rest := by
  induction k generalizing rest with
  | zero => exact .inr hv
  | succ k ih =>
      rcases ih hv with h | h
      · exact .inl h
      · exact List.mem_append.mp h

lemma mem_repeatItems {items : List Value} {k : Nat} {v : Value} (hv : v ∈ repeatItems items k) :
    v ∈ items := by
  rw [repeatItems] at hv
  split at hv
  · cases hv
  · exact (mem_repeatOnto hv).resolve_right List.not_mem_nil

lemma within_some {v : Value} (hv : v.Within n) : ∀ w ∈ some v, w.Within n := by
  intro w hw
  cases hw
  exact hv

lemma within_none : ∀ w ∈ (Option.none : Option Value), w.Within n := by
  intro w hw
  cases hw

lemma repeated_keeps {seq : Value} (hs : seq.Within n) (count : Int64) :
    Keeps (Kept n h₀) (fun o => ∀ v ∈ o, v.Within n) (seq.repeated count) := by
  cases seq with
  | str ident s =>
      refine (Eval.ofLimit_keeps _).bind fun _ _ => ?_
      exact (Eval.newStr_keeps _).bind fun v hv => .pure (within_some hv)
  | list r =>
      refine Keeps.get.bind fun h hh => (Eval.ofLimit_keeps _).bind fun _ _ => ?_
      refine (Eval.newList_keeps fun v hv => ?_).bind fun v hv => .pure (within_some hv)
      rw [List.mem_toArray] at hv
      exact hh.within.list r v (Array.mem_toList_iff.mp (mem_repeatItems hv))
  | tuple ident items =>
      refine (Eval.ofLimit_keeps _).bind fun _ _ => ?_
      refine (Eval.newTuple_keeps fun v hv => ?_).bind fun v hv => .pure (within_some hv)
      exact within_tuple_iff.mp hs v (mem_repeatItems hv)
  | _ => exact .pure within_none

lemma joined_keeps {l r : Value} (hl : l.Within n) (hr : r.Within n) :
    Keeps (Kept n h₀) (fun o => ∀ v ∈ o, v.Within n) (l.joined r) := by
  rw [joined.eq_def]
  split
  · exact (Eval.newStr_keeps _).bind fun v hv => .pure (within_some hv)
  · rename_i a b
    refine Keeps.get.bind fun h hh => Keeps.get.bind fun h' hh' => ?_
    refine (Eval.newList_keeps fun v hv => ?_).bind fun v hv => .pure (within_some hv)
    rcases Array.mem_append.mp hv with hv | hv
    · exact hh.within.list a v hv
    · exact hh'.within.list b v hv
  · refine (Eval.newTuple_keeps fun v hv => ?_).bind fun v hv => .pure (within_some hv)
    rcases List.mem_append.mp hv with hv | hv
    · exact within_tuple_iff.mp hl v hv
    · exact within_tuple_iff.mp hr v hv
  · exact .pure within_none

lemma onSequences_keeps (op : ArithOp) {l r : Value} (hl : l.Within n) (hr : r.Within n) :
    Keeps (Kept n h₀) (fun o => ∀ v ∈ o, v.Within n) (onSequences op l r) := by
  rw [onSequences.eq_def]
  split
  · exact joined_keeps hl hr
  · split
    · exact repeated_keeps hl _
    · exact repeated_keeps hr _
    · exact .pure within_none
  · exact .pure within_none

end Value

/-! ### Numbers -/

lemma checked_within {i : Option Int64} {v : Value} (h : checked i = .ok v) : v.Within n := by
  cases i <;> cases h
  trivial

lemma checkedInt_within {i : Int} {v : Value} (h : checkedInt i = .ok v) : v.Within n :=
  checked_within h

lemma trueQuotient_within {a b : Double} {v : Value} (h : trueQuotient a b = .ok v) :
    v.Within n := by
  rw [trueQuotient] at h
  split at h <;> cases h
  trivial

namespace ArithOp

lemma onInts_within {op : ArithOp} {a b : Int64} {v : Value} (h : op.onInts a b = .ok v) :
    v.Within n := by
  cases op with
  | add => exact checkedInt_within h
  | subtract => exact checkedInt_within h
  | multiply => exact checkedInt_within h
  | trueDivide => exact trueQuotient_within h
  | and | xor | or =>
      cases h
      trivial
  | floorDivide | modulo | rshift =>
      simp only [onInts] at h
      split at h
      · cases h
      · split at h <;> cases h <;> trivial
  | power =>
      simp only [onInts] at h
      split at h
      · split at h <;> cases h
        trivial
      · split at h
        · exact checked_within h
        · split at h
          · cases h
            trivial
          · split at h <;> cases h
            trivial
  | lshift =>
      simp only [onInts] at h
      split at h
      · cases h
      · split at h
        · cases h
          trivial
        · split at h
          · cases h
          · exact checkedInt_within h

lemma onFloats_within {op : ArithOp} {a b : Double} {v : Value}
    (h : op.onFloats a b = some (.ok v)) : v.Within n := by
  cases op with
  | add | subtract | multiply =>
      cases h
      trivial
  | trueDivide => exact trueQuotient_within (Option.some.inj h)
  | floorDivide | modulo | power =>
      have h := Option.some.inj h
      split at h <;> cases h
      trivial
  | lshift | rshift | and | xor | or => cases h

lemma onNumbers_within {op : ArithOp} {l r v : Value} (h : op.onNumbers l r = some (.ok v)) :
    v.Within n := by
  rw [onNumbers] at h
  split at h
  · exact onInts_within (Option.some.inj h)
  · split at h
    · exact onFloats_within h
    · cases h

lemma onScalars_within {op : ArithOp} {l r v : Value} (h : op.onScalars l r = some (.ok v)) :
    v.Within n := by
  rw [onScalars.eq_def] at h
  split at h
  · split at h
    · cases h
      trivial
    · exact onNumbers_within h
  · exact onNumbers_within h

end ArithOp

namespace Value

lemma arith?_keeps (op : ArithOp) {l r : Value} (hl : l.Within n) (hr : r.Within n) :
    Keeps (Kept n h₀) (fun o => ∀ v ∈ o, v.Within n) (arith? op l r) := by
  rw [arith?.eq_def]
  split
  next v hv => exact .pure (within_some (ArithOp.onScalars_within hv))
  next => exact .throw _
  next => exact onSequences_keeps op hl hr

lemma arith_keeps (op : ArithOp) (symbol : String) {l r : Value} (hl : l.Within n)
    (hr : r.Within n) : Keeps (Kept n h₀) (Within n) (arith op symbol l r) := by
  refine (arith?_keeps op hl hr).bind fun o ho => ?_
  cases o with
  | some v => exact .pure (ho v rfl)
  | none => exact .throw _

lemma unary_keeps (op : UnaryOp) (v : Value) : Keeps (Kept n h₀) (Within n) (v.unary op) := by
  rw [unary.eq_def]
  split
  · exact Keeps.get.bind fun _ _ => .pure trivial
  · exact .pure trivial
  · exact .pure trivial
  · split
    · exact .throw _
    · split
      · split
        next hw => exact .pure (checkedInt_within hw)
        next => exact .throw _
      · exact .pure trivial
      · exact .pure trivial

/-! ### Operations that change an object -/

lemma setItem_keeps (v : Value) {key value : Value} (hk : key.Within n) (hv : value.Within n) :
    Keeps (Kept n h₀) (fun _ => True) (v.setItem key value) := by
  cases v with
  | dict r =>
      exact (hashKey_keeps key).bind fun k _ => Eval.modifyDict_keeps r fun d hd => hd.set k hk hv
  | list r =>
      rw [setItem.eq_def]
      dsimp only
      split
      · exact .throw _
      · refine Keeps.get.bind fun h _ => ?_
        split
        · refine Eval.modifyList_keeps r fun items hi w hw => ?_
          rcases Array.mem_or_eq_of_mem_setIfInBounds hw with hw | rfl
          · exact hi w hw
          · exact hv
        · exact .throw _
  | _ => exact .throw _

lemma deleteItem_keeps (v key : Value) : Keeps (Kept n h₀) (fun _ => True) (v.deleteItem key) := by
  cases v with
  | dict r =>
      refine (hashKey_keeps key).bind fun k _ => Keeps.get.bind fun h _ => ?_
      split
      · exact Eval.modifyDict_keeps r fun d hd => hd.erase k
      · exact Keeps.get.bind fun _ _ => .throw _
  | list r =>
      refine Keeps.get.bind fun h _ => (position_keeps _ key _).bind fun i _ => ?_
      refine Eval.modifyList_keeps r fun items hi w hw => hi w ?_
      rw [← Array.mem_toList_iff, Array.toList_eraseIdxIfInBounds] at hw
      exact Array.mem_toList_iff.mp (List.mem_of_mem_eraseIdx hw)
  | _ => exact .throw _

lemma extend_keeps (dest : Ref .list) {r : Value} (hr : r.Within n) :
    Keeps (Kept n h₀) (fun _ => True) (extend dest r) := by
  refine (collect_keeps hr).bind fun items hi => Keeps.get.bind fun h _ => ?_
  refine (Eval.ofLimit_keeps _).bind fun _ _ => ?_
  refine Eval.modifyList_keeps dest fun old ho w hw => ?_
  rcases Array.mem_append.mp hw with hw | hw
  · exact ho w hw
  · exact hi w hw

lemma inplace_keeps (op : ArithOp) {l r : Value} (hl : l.Within n) (hr : r.Within n) :
    Keeps (Kept n h₀) (Within n) (l.inplace op r) := by
  rw [inplace.eq_def]
  split
  · exact (extend_keeps _ hr).bind fun _ _ => .pure hl
  · exact arith_keeps op _ hl hr

end Value

/-! ### Calls -/

/-- The cells in the arguments of a call. -/
structure Args.Within (n : Nat) (a : Args) : Prop where
  positional : ∀ v ∈ a.positional, v.Within n
  keywords : ∀ k ∈ a.keywords, k.value.Within n

lemma Keyword.within_ofPairs {vs : List Value} {ks : List Keyword} (hvs : ∀ v ∈ vs, v.Within n)
    (h : Keyword.ofPairs vs = .ok ks) : ∀ k ∈ ks, k.value.Within n := by
  fun_induction Keyword.ofPairs vs generalizing ks with
  | case1 ident name value rest ih =>
      obtain ⟨-, hvalue, hrest⟩ := by simpa only [List.forall_mem_cons] using hvs
      cases hr : Keyword.ofPairs rest with
      | error c =>
          rw [hr] at h
          cases h
      | ok ks' =>
          rw [hr] at h
          cases h
          exact List.forall_mem_cons.mpr ⟨hvalue, ih hrest hr⟩
  | case2 => cases h
  | case3 =>
      cases h
      exact List.forall_mem_nil _

namespace Args

variable {a : Args}

lemma checkNoKeywords_keeps (a : Args) (function : String) :
    Keeps (Kept n h₀) (fun _ => True) (a.checkNoKeywords function) := by
  rw [checkNoKeywords]
  split
  · exact .pure trivial
  · exact .throw _

lemma one_keeps (ha : a.Within n) (function : String) :
    Keeps (Kept n h₀) (Value.Within n) (a.one function) := by
  refine (checkNoKeywords_keeps a function).bind fun _ _ => ?_
  split
  next v hv => exact .pure (ha.positional v (hv ▸ List.mem_singleton_self v))
  next => exact .throw _

lemma atMostOne_keeps (ha : a.Within n) (function : String) :
    Keeps (Kept n h₀) (fun o => ∀ v ∈ o, v.Within n) (a.atMostOne function) := by
  refine (checkNoKeywords_keeps a function).bind fun _ _ => ?_
  split
  next => exact .pure Value.within_none
  next v hv => exact .pure (Value.within_some (ha.positional v (hv ▸ List.mem_singleton_self v)))
  next => exact .throw _

lemma oneOrTwo_keeps (ha : a.Within n) (function : String) :
    Keeps (Kept n h₀) (fun p => p.1.Within n ∧ ∀ v ∈ p.2, v.Within n) (a.oneOrTwo function) := by
  have hpos := ha.positional
  refine (checkNoKeywords_keeps a function).bind fun _ _ => ?_
  split
  next => exact .throw _
  next v hv =>
    rw [hv] at hpos
    exact .pure ⟨hpos v (List.mem_singleton_self v), Value.within_none⟩
  next v w hv =>
    rw [hv] at hpos
    obtain ⟨hv, hw, -⟩ := by simpa only [List.forall_mem_cons] using hpos
    exact .pure ⟨hv, Value.within_some hw⟩
  next => exact .throw _

end Args

namespace Builtin

lemma length_within {h : Heap} {v w : Value} (hw : length h v = .ok w) : w.Within n := by
  rw [length] at hw
  split at hw
  · split at hw <;> cases hw
    trivial
  · cases hw

lemma toRange_within {vs : List Value} {w : Value} (hw : toRange vs = .ok w) : w.Within n := by
  cases hi : integers vs with
  | error c =>
      rw [toRange, hi] at hw
      cases hw
  | ok is =>
      simp only [toRange, hi, bind, Except.bind] at hw
      split at hw
      · cases hw
      · cases hw
        trivial
      · cases hw
        trivial
      · split at hw <;> cases hw
        trivial
      · cases hw

lemma absolute_within {v w : Value} (hw : absolute v = .ok w) : w.Within n := by
  rw [absolute.eq_def] at hw
  split at hw
  · split at hw <;> cases hw
    trivial
  · cases hw
    trivial
  · cases hw
    trivial
  · cases hw

lemma truncated_within {d : Double} {w : Value} (hw : truncated d = .ok w) : w.Within n := by
  rw [truncated] at hw
  split at hw
  · split at hw <;> cases hw
    trivial
  · cases hw

lemma toInt_within {v w : Value} (hw : toInt v = .ok w) : w.Within n := by
  rw [toInt.eq_def] at hw
  split at hw
  · cases hw
    trivial
  · cases hw
    trivial
  · exact truncated_within hw
  · split at hw <;> cases hw
    trivial
  · cases hw

lemma toFloat_within {v w : Value} (hw : toFloat v = .ok w) : w.Within n := by
  rw [toFloat.eq_def] at hw
  split at hw
  · split at hw <;> cases hw
    trivial
  · split at hw <;> cases hw
    trivial

/-- The best item is one of the items. -/
lemma best_mem {e : Extreme} {h : Heap} {v w : Value} {vs : List Value}
    (hw : best e h v vs = .ok w) : w ∈ v :: vs := by
  induction vs generalizing v with
  | nil =>
      cases hw
      exact List.mem_singleton_self _
  | cons u us ih =>
      rw [best] at hw
      split at hw
      · cases hw
      · have hmem := ih hw
        split at hmem
        · exact List.mem_cons_of_mem _ hmem
        · rcases List.mem_cons.mp hmem with rfl | hmem
          · exact List.mem_cons_self
          · exact List.mem_cons_of_mem _ (List.mem_cons_of_mem _ hmem)

lemma extreme_keeps (e : Extreme) {args : Args} (ha : args.Within n) :
    Keeps (Kept n h₀) (Within n) (extreme e args) := by
  have hpos := ha.positional
  rw [extreme.eq_def]
  extract_lets pick
  have hpick : ∀ items, (∀ v ∈ items, v.Within n) → Keeps (Kept n h₀) (Within n) (pick items) := by
    intro items hi
    cases items with
    | nil => exact .throw _
    | cons v vs =>
        refine Keeps.get.bind fun h _ => ?_
        split
        next w hw => exact .pure (hi w (best_mem hw))
        next => exact .throw _
  refine (Args.checkNoKeywords_keeps args _).bind fun _ _ => ?_
  split
  · exact (Keeps.throw _).bind hpick
  next v hv =>
    rw [hv] at hpos
    refine (Value.items_keeps (hpos v (List.mem_singleton_self v))).bind fun items hi => ?_
    exact (Keeps.pure fun w hw => hi w (Array.mem_toList_iff.mp hw)).bind hpick
  · exact (Keeps.pure hpos).bind hpick

lemma addItems_keeps {k : Nat} {it : Iter} {acc : Value} (hi : it.Within n) (ha : acc.Within n) :
    Keeps (Kept n h₀) (Within n) (addItems k it acc) := by
  induction k generalizing it acc with
  | zero => exact .pure ha
  | succ k ih =>
      refine (Iter.next_keeps hi).bind fun step hstep => ?_
      cases step with
      | none => exact .pure ha
      | some step =>
          obtain ⟨hv, hi'⟩ := hstep step rfl
          exact (Value.arith_keeps .add _ ha hv).bind fun w hw => ih hi' hw

lemma total_keeps {args : Args} (ha : args.Within n) :
    Keeps (Kept n h₀) (Within n) (total args) := by
  refine (Args.oneOrTwo_keeps ha _).bind fun given hgiven => ?_
  obtain ⟨v, start⟩ := given
  obtain ⟨hv, hstart⟩ := hgiven
  have hsum : ∀ acc : Value, acc.Within n → Keeps (Kept n h₀) (Within n)
      (v.iterator >>= fun it => get >>= fun h => addItems (it.sizeHint h + 1) it acc) := by
    intro acc hacc
    refine (Value.iterator_keeps hv).bind fun it hi => ?_
    exact Keeps.get.bind fun h _ => addItems_keeps hi hacc
  dsimp only
  split
  · exact (Keeps.throw _).bind hsum
  · exact (Keeps.pure (hstart _ rfl)).bind hsum
  · exact (Keeps.pure (show (Value.int 0).Within n from trivial)).bind hsum

lemma evaluate_keeps (b : Builtin) {args : Args} (ha : args.Within n) :
    Keeps (Kept n h₀) (Within n) (b.evaluate args) := by
  cases b with
  | print => exact .pure trivial
  | len =>
      refine Keeps.get.bind fun h _ => (Args.one_keeps ha _).bind fun v _ => ?_
      exact Eval.ofExcept_keeps fun w hw => length_within hw
  | range =>
      refine (Args.checkNoKeywords_keeps args _).bind fun _ _ => ?_
      exact Eval.ofExcept_keeps fun w hw => toRange_within hw
  | abs =>
      refine (Args.one_keeps ha _).bind fun v _ => ?_
      exact Eval.ofExcept_keeps fun w hw => absolute_within hw
  | str =>
      refine (Args.atMostOne_keeps ha _).bind fun v _ => ?_
      cases v with
      | some v => exact Keeps.get.bind fun h _ => Eval.newStr_keeps _
      | none => exact Eval.newStr_keeps _
  | repr =>
      refine (Args.one_keeps ha _).bind fun v _ => ?_
      exact Keeps.get.bind fun h _ => Eval.newStr_keeps _
  | int =>
      refine (Args.atMostOne_keeps ha _).bind fun v _ => ?_
      cases v with
      | some v => exact Eval.ofExcept_keeps fun w hw => toInt_within hw
      | none => exact .pure trivial
  | float =>
      refine (Args.atMostOne_keeps ha _).bind fun v _ => ?_
      cases v with
      | some v => exact Eval.ofExcept_keeps fun w hw => toFloat_within hw
      | none => exact .pure trivial
  | bool =>
      refine (Args.atMostOne_keeps ha _).bind fun v _ => ?_
      cases v with
      | some v => exact Keeps.get.bind fun h _ => .pure trivial
      | none => exact .pure trivial
  | list =>
      refine (Args.atMostOne_keeps ha _).bind fun v hv => ?_
      cases v with
      | some v =>
          exact (Value.collect_keeps (hv v rfl)).bind fun items hi => Eval.newList_keeps hi
      | none => exact Eval.newList_keeps fun v hv => absurd hv (Array.not_mem_empty v)
  | tuple =>
      refine (Args.atMostOne_keeps ha _).bind fun v hv => ?_
      cases v with
      | some v =>
          refine (Value.collect_keeps (hv v rfl)).bind fun items hi => ?_
          exact Eval.newTuple_keeps fun w hw => hi w (Array.mem_toList_iff.mp hw)
      | none => exact Eval.newTuple_keeps (List.forall_mem_nil _)
  | min => exact extreme_keeps .least ha
  | max => exact extreme_keeps .greatest ha
  | sum => exact total_keeps ha

lemma call_keeps (b : Builtin) {args : Args} (ha : args.Within n) :
    Keeps (Kept n h₀) (fun p => p.1.Within n) (b.call args) := by
  rw [call.eq_def]
  split
  · refine Keeps.get.bind fun h _ => ?_
    exact (Eval.ofExcept_keeps fun _ _ => trivial).bind fun _ (_ : True) => .pure trivial
  · exact (evaluate_keeps _ ha).bind fun v hv => .pure hv

end Builtin

lemma ExcClass.call_keeps (c : ExcClass) {args : Args} (ha : args.Within n) :
    Keeps (Kept n h₀) (Within n) (c.call args) := by
  refine (Args.atMostOne_keeps ha _).bind fun v _ => ?_
  cases v with
  | none => exact (Eval.newException_keeps c none).bind fun _ _ => .pure trivial
  | some v =>
      refine Keeps.get.bind fun h _ => ?_
      exact (Eval.newException_keeps c _).bind fun _ _ => .pure trivial

namespace Signature

/-- The cells in the values of slots. -/
def SlotsWithin (n : Nat) (slots : List (Option Value)) : Prop :=
  ∀ slot ∈ slots, ∀ v ∈ slot, v.Within n

/-- The cells in parameters under way. -/
structure Slots.Within (n : Nat) (s : Slots) : Prop where
  values : SlotsWithin n s.values
  extra : s.extra.Within n

lemma fillPositional_within (s : Signature) {args : List Value} (ha : ∀ v ∈ args, v.Within n) :
    (s.fillPositional args).Within n := by
  refine ⟨?_, Dict.within_empty⟩
  intro slot hslot v hv
  rcases List.mem_append.mp hslot with h | h
  · obtain ⟨w, hw, rfl⟩ := List.mem_map.mp h
    cases hv
    exact ha _ (List.mem_of_mem_take hw)
  · obtain ⟨-, rfl⟩ := List.mem_replicate.mp h
    cases hv

lemma fillKeyword_within {s : Signature} {function : String} {slots slots' : Slots} {k : Keyword}
    (hs : slots.Within n) (hk : k.value.Within n)
    (h : s.fillKeyword function slots k = .ok slots') : slots'.Within n := by
  rw [fillKeyword] at h
  split at h
  · split at h
    · cases h
    · cases h
      refine ⟨?_, hs.extra⟩
      intro slot hslot v hv
      rcases List.mem_or_eq_of_mem_set hslot with hslot | rfl
      · exact hs.values slot hslot v hv
      · cases hv
        exact hk
  · split at h
    · cases h
    · split at h
      · cases h
      · cases h
        exact ⟨hs.values, hs.extra.set _ trivial hk⟩

lemma fillKeywords_within {s : Signature} {function : String} {slots slots' : Slots}
    {ks : List Keyword} (hs : slots.Within n) (hks : ∀ k ∈ ks, k.value.Within n)
    (h : s.fillKeywords function slots ks = .ok slots') : slots'.Within n := by
  induction ks generalizing slots with
  | nil =>
      cases h
      exact hs
  | cons k ks ih =>
      obtain ⟨hk, hks⟩ := List.forall_mem_cons.mp hks
      rw [fillKeywords] at h
      split at h
      next slots₁ h₁ => exact ih (fillKeyword_within hs hk h₁) hks h
      next => cases h

lemma withDefaults_within {defaults : List Value} {slots : List (Option Value)}
    (hd : ∀ v ∈ defaults, v.Within n) (hs : SlotsWithin n slots) :
    SlotsWithin n (withDefaults defaults slots) := by
  intro slot hslot v hv
  obtain ⟨i, hi, rfl⟩ := List.mem_mapIdx.mp hslot
  rcases Option.or_eq_some_iff.mp hv with hv | ⟨-, hv⟩
  · exact hs _ (List.getElem_mem hi) v hv
  · rw [default?] at hv
    split at hv
    · exact hd v (List.mem_of_getElem? hv)
    · cases hv

lemma withKeywordDefaults_within {names : List String} {kwdefaults : List (String × Value)}
    {slots : List (Option Value)} (hd : ∀ d ∈ kwdefaults, d.2.Within n)
    (hs : SlotsWithin n slots) :
    SlotsWithin n (withKeywordDefaults names kwdefaults slots) := by
  intro slot hslot v hv
  rw [withKeywordDefaults, ← List.map_uncurry_zip_eq_zipWith] at hslot
  obtain ⟨⟨name, slot₀⟩, hmem, rfl⟩ := List.mem_map.mp hslot
  rcases Option.or_eq_some_iff.mp hv with hv | ⟨-, hv⟩
  · exact hs slot₀ (List.of_mem_zip hmem).2 v hv
  · obtain ⟨d, hd', rfl⟩ := Option.map_eq_some_iff.mp hv
    exact hd d (List.mem_of_find?_eq_some hd')

lemma bound_within {names : List String} {slots : List (Option Value)} (hs : SlotsWithin n slots) :
    ∀ b ∈ bound names slots, b.2.Within n := by
  intro b hb
  obtain ⟨slot, hmem, hv⟩ := List.mem_filterMap.mp (List.of_mem_zip hb).2
  exact hs slot hmem b.2 hv

/-- The values of parameters are arguments and defaults. -/
lemma bindParams_within {s : Signature} {function : String} {defaults : List Value}
    {kwdefaults : List (String × Value)} {args : Args} {params : List (String × Value)}
    {extra : Dict} (hd : ∀ v ∈ defaults, v.Within n) (hk : ∀ d ∈ kwdefaults, d.2.Within n)
    (ha : args.Within n)
    (h : s.bindParams function defaults kwdefaults args = .ok (params, extra)) :
    (∀ b ∈ params, b.2.Within n) ∧ extra.Within n := by
  obtain ⟨slots, hfill, rfl, rfl⟩ : ∃ slots : Slots,
      s.fillKeywords function (s.fillPositional args.positional) args.keywords = .ok slots ∧
      params = bound s.params
        (withDefaults defaults (slots.values.take s.positional.length) ++
          withKeywordDefaults s.kwonly kwdefaults (slots.values.drop s.positional.length)) ∧
      extra = slots.extra := by
    simp only [bindParams, Bind.bind, Except.bind, Pure.pure, Except.pure] at h
    split at h
    · cases h
    · split at h
      · cases h
      next slots hfill =>
        split at h
        · cases h
        · split at h
          · cases h
          · cases h
            exact ⟨slots, hfill, rfl, rfl⟩
  have hslots := fillKeywords_within (s.fillPositional_within ha.positional) ha.keywords hfill
  refine ⟨bound_within (List.forall_mem_append.mpr ⟨?_, ?_⟩), hslots.extra⟩
  · refine withDefaults_within hd fun slot hslot => ?_
    exact hslots.values slot (List.mem_of_mem_take hslot)
  · refine withKeywordDefaults_within hk fun slot hslot => ?_
    exact hslots.values slot (List.mem_of_mem_drop hslot)

lemma within_singleton {name : String} {v : Value} (hv : v.Within n) :
    ∀ b ∈ [(name, v)], b.2.Within n := by
  intro b hb
  rw [List.mem_singleton.mp hb]
  exact hv

lemma bind_keeps {s : Signature} {function : String} {defaults : List Value}
    {kwdefaults : List (String × Value)} {args : Args} (hd : ∀ v ∈ defaults, v.Within n)
    (hk : ∀ d ∈ kwdefaults, d.2.Within n) (ha : args.Within n) :
    Keeps (Kept n h₀) (fun bs => ∀ b ∈ bs, b.2.Within n)
      (s.bind function defaults kwdefaults args) := by
  rw [Signature.bind.eq_def]
  split
  · exact .throw _
  next params extra hbind =>
    obtain ⟨hparams, hextra⟩ := bindParams_within hd hk ha hbind
    extract_lets last
    have hlast : ∀ rest : List (String × Value), (∀ b ∈ rest, b.2.Within n) →
        Keeps (Kept n h₀) (fun bs : List (String × Value) => ∀ b ∈ bs, b.2.Within n)
          (last rest) := by
      intro rest hrest
      have hfirst := List.forall_mem_append.mpr ⟨hparams, hrest⟩
      cases h : s.varkeywords with
      | some name =>
          simp only [last, h]
          refine (Eval.newDict_keeps hextra).bind fun d hd => .pure ?_
          exact List.forall_mem_append.mpr ⟨hfirst, within_singleton hd⟩
      | none =>
          simp only [last, h]
          refine .pure ?_
          exact List.forall_mem_append.mpr ⟨hfirst, List.forall_mem_nil _⟩
    split
    · refine (Eval.newTuple_keeps fun v hv => ha.positional v (List.mem_of_mem_drop hv)).bind
        fun t ht => ?_
      exact (Keeps.pure (within_singleton ht)).bind hlast
    · exact (Keeps.pure (List.forall_mem_nil _)).bind hlast

end Signature

mutual

/-- There is no cell in a constant. -/
lemma Const.load_keeps (owner : Ident) (path : List Nat) :
    ∀ c : Const, Keeps (Kept n h₀) (Within n) (c.load owner path)
  | .none | .bool _ | .int _ | .float _ | .str _ | .code _ => .pure trivial
  | .tuple items =>
      (Const.loadAll_keeps owner path 0 items).bind fun _ hvs => Eval.newTuple_keeps hvs

lemma Const.loadAll_keeps (owner : Ident) (path : List Nat) (i : Nat) :
    ∀ cs : List Const,
      Keeps (Kept n h₀) (fun vs => ∀ v ∈ vs, v.Within n) (Const.loadAll owner path i cs)
  | [] => .pure (List.forall_mem_nil _)
  | c :: cs =>
      (Const.load_keeps owner (i :: path) c).bind fun _ hv =>
        (Const.loadAll_keeps owner path (i + 1) cs).bind fun _ hvs =>
          .pure (List.forall_mem_cons.mpr ⟨hv, hvs⟩)

end

end StackVM
