/-
The builtin functions `min`, `max` and `sum` of one argument, as functions of the items: what they
come to does not depend on the kind of sequence that the items are in. An iterator is no sequence
to them, although `list` takes it.

* `Eval.outcome`: the value or the class of the exception;
* `Heap.OrdersAs`: two heaps order the items alike, as a heap and what it grows to do;
* `Builtin.bestOf`, `Value.plus`: the first least or greatest of some items, and a sum of numbers;
* `Builtin.reduced`: what an aggregate function makes of some items;
* `Builtin.outcome_evaluate`: **aggregates** of a sequence are those of its items;
* `aggregates_agree_with_list`, `aggregates_refuse_iterator`.
-/
import Mathlib
import StackVM.Proofs.Evaluation
import StackVM.Proofs.GrowingHeaps
import StackVM.Proofs.IntegerArithmetic
import StackVM.Proofs.Sequences

namespace StackVM

/-! ### Outcomes -/

/-- What is told of a result: the content of the value or the class of the exception. -/
def told : Except Cause Value → Except ExcClass Value
  | .ok v => .ok v.content
  | .error c => .error c.cls

/-- What a computation comes to: a value, known by its content, or an exception of a class. -/
def Eval.outcome (x : Eval Value) (h : Heap) : Except ExcClass Value :=
  match x h with
  | .ok v _ => .ok v.content
  | .error c _ => .error c.cls

lemma Eval.outcome_of_ofExcept {x : Eval Value} {h h' : Heap} {out : Except Cause Value}
    (hx : x h = Eval.ofExcept out h') : x.outcome h = told out := by
  rw [outcome, hx]
  cases out <;> rfl

/-! ### Items are compared by their content -/

namespace Value

lemma content_content (v : Value) : v.content.content = v.content := by
  cases v <;> rfl

lemma typeTag_content (v : Value) : v.content.typeTag = v.typeTag := by
  cases v <;> rfl

lemma asInt?_content (v : Value) : v.content.asInt? = v.asInt? := by
  cases v <;> rfl

lemma asDouble?_content (v : Value) : v.content.asDouble? = v.asDouble? := by
  cases v <;> rfl

lemma compareWith_content (eq : Value → Value → Bool)
    (lists : Ref .list → Ref .list → Option Ordering) (a b : Value) :
    compareWith eq lists a.content b.content = compareWith eq lists a b := by
  cases a <;> cases b <;> rfl

end Value

namespace Heap

lemma compare?_content (h : Heap) (a b : Value) :
    h.compare? a.content b.content = h.compare? a b := by
  rw [compare?, compare?]
  cases h.nesting <;> exact Value.compareWith_content _ _ a b

/-- The heap `g` orders the items as `h` does. -/
def OrdersAs (g h : Heap) (xs : List Value) : Prop :=
  ∀ a ∈ xs, ∀ b ∈ xs, g.compare? a b = h.compare? a b

variable {g h : Heap} {xs : List Value}

lemma eqWithin_idents (h : Heap) (m n : Nat) :
    ({ h with idents := m } : Heap).eqWithin n = h.eqWithin n := by
  induction n with
  | zero => rfl
  | succ n ih =>
      rw [eqWithin, eqWithin, ih]
      rfl

/-- The order does not depend on the identities that have been given out. -/
lemma compareWithin?_idents (h : Heap) (m n : Nat) :
    ({ h with idents := m } : Heap).compareWithin? n = h.compareWithin? n := by
  have heq : ({ h with idents := m } : Heap).eq = h.eq := eqWithin_idents h m h.nesting
  induction n with
  | zero => rw [compareWithin?, compareWithin?, heq]
  | succ n ih =>
      rw [compareWithin?, compareWithin?, ih, heq]
      rfl

lemma ordersAs_idents (h : Heap) (m : Nat) (xs : List Value) :
    ({ h with idents := m } : Heap).OrdersAs h xs := fun a _ b _ =>
  congrFun (congrFun (compareWithin?_idents h m h.nesting) a) b

/-- What is made later does not change the order of items that end. -/
lemma Intact.ordersAs (hi : h.Intact g) (hxs : ∀ x ∈ xs, h.Founded x) : g.OrdersAs h xs := by
  intro a ha b hb
  obtain ⟨m, ha⟩ := hxs a ha
  obtain ⟨n, hb⟩ := hxs b hb
  exact hi.compare?_eq ha hb

lemma OrdersAs.contents (hg : g.OrdersAs h xs) : g.OrdersAs h (xs.map Value.content) := by
  simp only [OrdersAs, List.forall_mem_map, compare?_content]
  exact hg

end Heap

/-! ### The least and the greatest -/

namespace Builtin

variable {e : Extreme} {g h h' : Heap} {v w : Value} {xs : List Value}

/-- The first least or first greatest of some items. -/
def bestOf (e : Extreme) (h : Heap) : List Value → Except Cause Value
  | [] => .error (.emptyAggregate e.name)
  | v :: vs => best e h v vs

lemma extreme_of_items {got : Array Value} (hitems : v.items h = .ok got h') :
    extreme e ⟨[v], []⟩ h = Eval.ofExcept (bestOf e h' got.toList) h' := by
  rw [extreme, bind_of_ok (show Args.checkNoKeywords ⟨[v], []⟩ e.name h = .ok () h from rfl)]
  refine (bind_of_ok hitems).trans ?_
  cases got.toList with
  | nil => rfl
  | cons v vs =>
      rw [pure_bind]
      refine (bind_of_ok (Eval.get_run h')).trans ?_
      rw [bestOf]
      cases best e h' v vs <;> rfl

lemma extreme_of_no_items {c : Cause} (hitems : v.items h = .error c h') :
    extreme e ⟨[v], []⟩ h = .error c h' :=
  bind_error_iff.mpr (.inr ⟨(), h, rfl, bind_error_iff.mpr (.inl hitems)⟩)

/-- The best of some items, in a heap that orders them as another one. -/
lemma best_congr {vs : List Value} (hg : g.OrdersAs h (v :: vs)) :
    best e g v vs = best e h v vs := by
  induction vs generalizing v with
  | nil => rfl
  | cons w ws ih =>
      rw [best, best, hg w (by simp) v (by simp)]
      cases h.compare? w v with
      | none => rfl
      | some o =>
          have hmem : ∀ a ∈ (if o = e.better then w else v) :: ws, a ∈ v :: w :: ws := by
            split <;> simp +contextual
          exact ih fun a ha b hb => hg a (hmem a ha) b (hmem b hb)

/-- The best of some items, each known by its content. -/
lemma told_best_content {vs : List Value} :
    told (best e h v.content (vs.map Value.content)) = told (best e h v vs) := by
  induction vs generalizing v with
  | nil => exact congrArg Except.ok v.content_content
  | cons w ws ih =>
      rw [List.map_cons, best, best, h.compare?_content]
      cases h.compare? w v with
      | none => rfl
      | some o =>
          change told (best e h (if o = e.better then w.content else v.content) _) = _
          rw [← apply_ite Value.content]
          exact ih

lemma bestOf_congr (hg : g.OrdersAs h xs) : bestOf e g xs = bestOf e h xs := by
  cases xs with
  | nil => rfl
  | cons v vs => exact best_congr hg

lemma told_bestOf_content :
    told (bestOf e h (xs.map Value.content)) = told (bestOf e h xs) := by
  cases xs with
  | nil => rfl
  | cons v vs => exact told_best_content

/-- The least or greatest item of a sequence depends on the contents of its items. -/
lemma outcome_extreme (hv : v.isSequence = true) (hle : (h.contents v).length ≤ 33554432) :
    (extreme e ⟨[v], []⟩).outcome h = told (bestOf e h (h.contents v)) := by
  obtain ⟨got, m, hitems, hgot⟩ := Value.items_of_le hv hle
  rw [Eval.outcome_of_ofExcept (extreme_of_items hitems), bestOf_congr (h.ordersAs_idents m _),
    ← told_bestOf_content, hgot]

end Builtin

/-! ### Sums -/

namespace Value

/-- The value is an integer, a truth value or a float. -/
def isNumber (v : Value) : Bool :=
  v.asDouble?.isSome

/-- The sum of two values, of which the first is a number. -/
def plus (l r : Value) : Except Cause Value :=
  (ArithOp.add.onNumbers l r).getD (.error (.badOperands ArithOp.add.symbol l.typeTag r.typeTag))

variable {l r v : Value} {h : Heap}

lemma onScalars_add : ArithOp.add.onScalars l r = ArithOp.add.onNumbers l r := by
  cases l with
  | bool a => cases r <;> rfl
  | _ => rfl

lemma joined_of_isNumber (hl : l.isNumber = true) : l.joined r h = .ok Option.none h := by
  cases l with
  | bool _ | int _ | float _ => rfl
  | _ => cases hl

/-- Adding to a number does not look at the heap. -/
lemma binary_add (hl : l.isNumber = true) : l.binary .add r h = Eval.ofExcept (l.plus r) h := by
  rw [plus]
  cases hsum : ArithOp.add.onNumbers l r with
  | none =>
      have harith : arith? .add l r h = .ok Option.none h := by
        rw [arith?, onScalars_add, hsum]
        exact joined_of_isNumber hl
      rw [binary, arith, bind_of_ok harith]
      rfl
  | some out =>
      rw [← onScalars_add] at hsum
      cases out with
      | ok v => exact binary_of_ok hsum h
      | error c => exact binary_of_error hsum h

lemma plus_content (l r : Value) : l.plus r.content = l.plus r := by
  rw [plus, plus, ArithOp.onNumbers, ArithOp.onNumbers, asInt?_content, asDouble?_content,
    typeTag_content]

/-- A sum is a number. -/
lemma isNumber_of_plus (hv : l.plus r = .ok v) : v.isNumber = true := by
  rw [plus, ArithOp.onNumbers] at hv
  split at hv
  next a b =>
    obtain ⟨i, rfl, -⟩ := checkedInt_eq_ok_iff.mp hv
    rfl
  next =>
    split at hv
    next a b =>
      cases hv
      rfl
    next => cases hv

end Value

namespace Builtin

variable {b : Builtin} {g h : Heap} {it : Iter} {v : Value} {xs : List Value} {n : Nat}

/-- **All steps** of a sum: the items to come are added from the left. -/
lemma addItems_eq {acc : Value} (hacc : acc.isNumber = true) (hs : it.Steady h)
    (hc : it.Countable) (hn : (it.rest h).length < n) :
    ∃ m, addItems n it acc h =
      Eval.ofExcept ((it.rest h).foldlM Value.plus acc) { h with idents := m } := by
  induction n generalizing it h acc with
  | zero => exact absurd hn (Nat.not_lt_zero _)
  | succ n ih =>
      cases hrest : it.rest h with
      | nil =>
          refine ⟨h.idents, ?_⟩
          rw [addItems, bind_of_ok (Iter.next_nil hs hc hrest)]
          rfl
      | cons x xs =>
          obtain ⟨v, it', m, hnext, rfl, hxs, hs', hc', hsource⟩ := Iter.next_cons hs hc hrest
          rw [hrest, List.length_cons] at hn
          rw [addItems, bind_of_ok hnext, List.foldlM_cons, Value.plus_content]
          have hsum := Value.binary_add (r := v) (h := { h with idents := m }) hacc
          cases hplus : acc.plus v with
          | error c =>
              rw [hplus] at hsum
              exact ⟨m, bind_error_iff.mpr (.inl hsum)⟩
          | ok z =>
              rw [hplus] at hsum
              have hu : it'.source.Unmodified h { h with idents := m } := .idents h m _
              have hrest' := (Iter.rest_of_unmodified hu).trans hxs
              obtain ⟨m', htotal⟩ := ih (Value.isNumber_of_plus hplus) (hs'.of_unmodified hu) hc'
                (hrest' ▸ Nat.lt_of_succ_lt_succ hn)
              rw [hrest'] at htotal
              exact ⟨m', (bind_of_ok hsum).trans htotal⟩

/-- The sum of a sequence depends on the contents of its items. -/
lemma outcome_total (hv : v.isSequence = true) (hle : (h.contents v).length ≤ 33554432) :
    (total ⟨[v], []⟩).outcome h = told ((h.contents v).foldlM Value.plus (.int 0)) := by
  obtain ⟨it, hit, hrest, hsteady, hcountable, -⟩ := Value.iterator_of_isSequence (h := h) hv
  obtain ⟨m, hsum⟩ := addItems_eq (show (Value.int 0).isNumber = true from rfl) hsteady
    (hcountable hle) (Nat.lt_succ_self _)
  rw [← Iter.sizeHint_eq hsteady, hrest] at hsum
  exact Eval.outcome_of_ofExcept ((bind_of_ok hit).trans hsum)

/-! ### Aggregates -/

/-- The function reduces the items of its argument to one value. -/
def isAggregate : Builtin → Bool
  | .min | .max | .sum => true
  | _ => false

/-- What an aggregate function makes of some items. -/
def reduced (h : Heap) (xs : List Value) : Builtin → Except Cause Value
  | .min => bestOf .least h xs
  | .max => bestOf .greatest h xs
  | .sum => xs.foldlM Value.plus (.int 0)
  | _ => .ok .none

/-- **Aggregates** of a sequence are those of the contents of its items. -/
lemma outcome_evaluate (hb : b.isAggregate = true) (hv : v.isSequence = true)
    (hle : (h.contents v).length ≤ 33554432) :
    (b.evaluate ⟨[v], []⟩).outcome h = told (b.reduced h (h.contents v)) := by
  cases b with
  | min => exact outcome_extreme hv hle
  | max => exact outcome_extreme hv hle
  | sum => exact outcome_total hv hle
  | _ => cases hb

lemma reduced_congr (hg : g.OrdersAs h xs) (b : Builtin) : b.reduced g xs = b.reduced h xs := by
  cases b with
  | min => exact bestOf_congr hg
  | max => exact bestOf_congr hg
  | _ => rfl

/-- Aggregate functions go through nothing but sequences. -/
lemma evaluate_of_not_isSequence (hb : b.isAggregate = true) (hv : v.isSequence = false) :
    b.evaluate ⟨[v], []⟩ h = .error (.notIterable v.typeTag) h := by
  have hiterator := Value.iterator_of_not_isSequence (h := h) hv
  have hitems := Value.items_of_not_isSequence (h := h) hv
  cases b with
  | min => exact extreme_of_no_items hitems
  | max => exact extreme_of_no_items hitems
  | sum =>
      refine bind_error_iff.mpr (.inr ⟨(v, none), h, rfl, ?_⟩)
      refine bind_error_iff.mpr (.inr ⟨.int 0, h, rfl, ?_⟩)
      exact bind_error_iff.mpr (.inl hiterator)
  | _ => cases hb

end Builtin

/-- **Aggregates agree with `list`**: of a value whose items `list` gives, `min`, `max` and `sum`
come to the same as of any list of these items, in any heap that orders them alike; the heap of the
call is one, and so is the heap that `list` leaves if the items end. This holds of every value but
an iterator, which `list` takes and these refuse. -/
theorem aggregates_agree_with_list {b : Builtin} (hb : b.isAggregate = true) {h h' : Heap}
    {v : Value} {l : Ref .list}
    (hlist : Builtin.list.evaluate ⟨[v], []⟩ h = .ok (.list l) h') :
    (∀ (g : Heap) (r : Ref .list),
      (g.list r).toList.map Value.content = (h'.list l).toList.map Value.content →
      g.OrdersAs h (h'.list l).toList →
      ((∀ i, v ≠ .iter i) →
        (b.evaluate ⟨[v], []⟩).outcome h = (b.evaluate ⟨[.list r], []⟩).outcome g) ∧
      ∀ i, v = .iter i → b.evaluate ⟨[v], []⟩ h = .error (.notIterable .iterator) h ∧
        ((b.evaluate ⟨[v], []⟩).outcome h = (b.evaluate ⟨[.list r], []⟩).outcome g ↔
          (b.evaluate ⟨[.list r], []⟩).outcome g = .error .typeError)) ∧
    ((∀ x ∈ (h'.list l).toList, h.Founded x) → h'.OrdersAs h (h'.list l).toList) := by
  refine ⟨fun g r hr hg => ⟨fun hiter => ?_, ?_⟩, ?_⟩
  · have hv := Value.isSequence_of_evaluate_list hlist hiter
    obtain ⟨hle, hcontents⟩ := Value.contents_of_evaluate_list hv hlist
    have hr' : g.contents (.list r) = h.contents v := hr.trans hcontents
    rw [Builtin.outcome_evaluate hb hv hle,
      Builtin.outcome_evaluate hb (v := .list r) rfl (hr' ▸ hle), hr', ← hcontents,
      Builtin.reduced_congr hg.contents]
  · rintro i rfl
    have hrefused := Builtin.evaluate_of_not_isSequence (h := h) (v := .iter i) hb rfl
    refine ⟨hrefused, ?_⟩
    rw [Eval.outcome, hrefused]
    exact eq_comm
  · exact ((Builtin.evaluate_intact .list _).results h _ h' hlist).ordersAs

/-- The last of two letters, each of which is made twice. -/
theorem greatest_letter_is_that_of_list :
    ∃ l h', Builtin.list.evaluate ⟨[.str default "né"], []⟩ .empty = .ok (.list l) h' ∧
      (∀ x ∈ (h'.list l).toList, Heap.empty.Founded x) ∧
      h'.OrdersAs .empty (h'.list l).toList ∧
      (Builtin.max.evaluate ⟨[.str default "né"], []⟩).outcome .empty =
        (Builtin.max.evaluate ⟨[.list l], []⟩).outcome h' := by
  obtain ⟨l, h', hlist, hitems⟩ : ∃ l h',
      Builtin.list.evaluate ⟨[.str default "né"], []⟩ .empty = .ok (.list l) h' ∧
      (h'.list l).toList = [.str (.made 0) "n", .str (.made 1) "é"] := ⟨_, _, rfl, rfl⟩
  have hfounded : ∀ x ∈ (h'.list l).toList, Heap.empty.Founded x := by
    rw [hitems]
    simp only [List.forall_mem_cons, List.not_mem_nil, false_imp_iff, implies_true, and_true]
    exact ⟨⟨0, .atom rfl⟩, ⟨0, .atom rfl⟩⟩
  obtain ⟨hagree, horders⟩ := aggregates_agree_with_list (b := .max) rfl hlist
  refine ⟨l, h', hlist, hfounded, horders hfounded, ?_⟩
  refine (hagree h' l rfl (horders hfounded)).1 ?_
  rintro i ⟨⟩

/-- An iterator has a list of its items, which has a least and a greatest item and a sum; the
iterator has none. -/
theorem aggregates_refuse_iterator :
    ∃ h l h', Builtin.list.evaluate ⟨[.iter ⟨0⟩], []⟩ h = .ok (.list l) h' ∧
      (h'.list l).toList = [.int 3, .int 1] ∧
      (Builtin.min.evaluate ⟨[.list l], []⟩).outcome h' = .ok (.int 1) ∧
      (Builtin.max.evaluate ⟨[.list l], []⟩).outcome h' = .ok (.int 3) ∧
      (Builtin.sum.evaluate ⟨[.list l], []⟩).outcome h' = .ok (.int 4) ∧
      (Builtin.min.evaluate ⟨[.iter ⟨0⟩], []⟩).outcome h = .error .typeError ∧
      (Builtin.max.evaluate ⟨[.iter ⟨0⟩], []⟩).outcome h = .error .typeError ∧
      (Builtin.sum.evaluate ⟨[.iter ⟨0⟩], []⟩).outcome h = .error .typeError :=
  ⟨{ iters := ⟨#[.tuple #[.int 3, .int 1] 0]⟩ }, _, _, rfl, rfl, rfl, rfl, rfl, rfl, rfl, rfl⟩

end StackVM
