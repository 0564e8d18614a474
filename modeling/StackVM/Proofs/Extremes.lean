/-
`min` and `max` give the first extreme item. They go through the items once, from the left, and keep
the best item so far, which a later one replaces only if it is better. That this is right for all
the items is due to the order: it is transitive, and values that compare as equal compare alike.

* `Heap.Ordered.of_compareWithin?`: **the order that is found** is the order of the values, also of
  values that hold themselves;
* `Heap.Orderable`: a pair of values that a comparison does not refuse;
* `Heap.FirstExtreme`: the first item than which none is better;
* `Heap.FirstExtreme.step`, `Heap.FirstExtreme.best`: **one item more**, and all of them;
* `min_max_give_first_extreme`.
-/
import StackVM.Proofs.Aggregates

namespace StackVM

namespace Heap

variable {h : Heap} {a b c : Value} {o : Ordering} {k : Nat}

/-! ### The order that is found -/

/-- A row of plain items compares as equal to itself. -/
lemma rowOrder_self {xs : List Value} (hxs : ∀ x ∈ xs, h.Plain x) : h.RowOrder xs xs .eq := by
  induction xs with
  | nil => exact .nil
  | cons x xs ih =>
      rw [List.forall_mem_cons] at hxs
      exact .equal (eq_refl hxs.1) (ih hxs.2)

/-- Rows that are compared by going through them, if their items compare as they should. -/
lemma rowOrder_of_compareItems {cmp : Value → Value → Option Ordering} {xs ys : List Value}
    (hitems : ∀ x ∈ xs, ∀ y ∈ ys, ∀ o, cmp x y = some o → h.Ordered x y o)
    (hxy : Value.compareItems h.eq cmp xs ys = some o) : h.RowOrder xs ys o := by
  induction xs generalizing ys with
  | nil =>
      cases ys with
      | nil =>
          cases hxy
          exact .nil
      | cons y ys =>
          cases hxy
          exact .shorter
  | cons x xs ih =>
      cases ys with
      | nil =>
          cases hxy
          exact .longer
      | cons y ys =>
          rw [Value.compareItems] at hxy
          rw [rowOrder_cons_iff]
          split at hxy
          next heq =>
            rw [if_pos heq]
            exact ih (fun x hx y hy =>
              hitems x (List.mem_cons_of_mem _ hx) y (List.mem_cons_of_mem _ hy)) hxy
          next hne =>
            rw [if_neg hne]
            exact hitems x List.mem_cons_self y List.mem_cons_self o hxy

lemma Ordered.of_not_alike (ha : h.Plain a) (hb : h.Plain b) (halike : a.alike b = false)
    (hab : h.compareWithin? k a b = some o) : h.Ordered a b o := by
  rw [compareWithin?_of_not_alike halike,
    Value.compareLeaf_eq_some_iff ha.isFloat_eq_false hb.isFloat_eq_false] at hab
  obtain ⟨x, y, hx, hy, rfl⟩ := hab
  exact .numbers hx hy

/-- **The order that is found** at any depth is the order of the values, which may hold
themselves. -/
theorem Ordered.of_compareWithin? (ha : h.Plain a) (hb : h.Plain b)
    (hab : h.compareWithin? k a b = some o) : h.Ordered a b o := by
  induction k using Nat.strong_induction_on generalizing a b o with
  | _ k below =>
    induction ha using Plain.ind generalizing b o with
    | atom v hv =>
        cases halike : v.alike b with
        | false => exact .of_not_alike (.of_isAtom hv) hb halike hab
        | true =>
            obtain ⟨i, s, j, t, rfl, rfl⟩ := Value.exists_of_alike_atom hv halike
            rw [compareWithin?_str] at hab
            cases hab
            exact .texts
    | tuple i xs ha ih =>
        cases b with
        | tuple j ys =>
            rw [compareWithin?_tuple] at hab
            exact .tuples
              (rowOrder_of_compareItems (fun x hx y hy o => ih x hx (hb.items y hy)) hab)
        | _ => exact .of_not_alike ha hb rfl hab
    | list r hr =>
        cases b with
        | list s =>
            by_cases hrs : r = s
            · subst hrs
              have hself : h.compareWithin? k (.list r) (.list r) = some .eq := by
                cases k <;> simp [compareWithin?, Value.compareWith]
              cases hself.symm.trans hab
              exact .lists (rowOrder_self hr.list_items)
            · have hne : (r == s) = false := beq_eq_false_iff_ne.mpr hrs
              cases k with
              | zero =>
                  rw [compareWithin?, Value.compareWith, hne] at hab
                  cases hab
              | succ k =>
                  rw [compareWithin?, Value.compareWith, hne] at hab
                  exact .lists (rowOrder_of_compareItems (fun x hx y hy o => below k
                    (Nat.lt_succ_self k) (hr.list_items x hx) (hb.list_items y hy)) hab)
        | _ => exact .of_not_alike hr hb rfl hab
    | dict r hr => exact .of_not_alike hr hb rfl hab

/-- The values can be ordered: neither is refused on the left of the other. -/
def Orderable (h : Heap) (a b : Value) : Prop :=
  ¬ h.Raises .lt a b ∧ ¬ h.Raises .lt b a

lemma Orderable.symm (hab : h.Orderable a b) : h.Orderable b a :=
  ⟨hab.2, hab.1⟩

instance : Std.Symm h.Orderable :=
  ⟨fun _ _ => Orderable.symm⟩

lemma Orderable.ordered (ha : h.Plain a) (hb : h.Plain b) (hab : h.Orderable a b) :
    ∃ o, h.compare? a b = some o ∧ h.Ordered a b o := by
  cases hcompare : h.compare? a b with
  | none =>
      refine absurd ⟨.unordered CompareOp.lt.symbol a.typeTag b.typeTag, ?_, rfl⟩ hab.1
      exact Value.ordered_of_none ha.isFloat_eq_false hb.isFloat_eq_false hcompare
  | some o => exact ⟨o, rfl, .of_compareWithin? ha hb hcompare⟩

end Heap

/-! ### Better items -/

namespace Builtin.Extreme

/-- The comparison that holds of a better item and another one. -/
def comparison : Extreme → CompareOp
  | .least => .lt
  | .greatest => .gt

/-- The function that looks for it. -/
def builtin : Extreme → Builtin
  | .least => .min
  | .greatest => .max

variable {e : Extreme} {o : Ordering}

lemma comparison_mem_orderings (e : Extreme) : e.comparison ∈ CompareOp.orderings := by
  cases e <;> decide

lemma orderingHolds_comparison_iff :
    Value.orderingHolds e.comparison o = true ↔ o = e.better := by
  cases e <;> cases o <;> decide

lemma better_ne_eq (e : Extreme) : e.better ≠ .eq := by
  cases e <;> decide

/-- Of two items that are not equal one is better. -/
lemma swap_eq_better (heq : o ≠ .eq) (ho : o ≠ e.better) : o.swap = e.better := by
  revert heq ho
  cases e <;> cases o <;> decide

end Builtin.Extreme

namespace Heap

open Builtin (Extreme)

variable {h : Heap} {e : Extreme} {a b c u v w : Value} {o : Ordering}

lemma holds_comparison_iff (ha : a.isFloat = false) (hb : b.isFloat = false) :
    h.Holds e.comparison a b ↔ h.compare? a b = some e.better := by
  rw [Holds, Value.compareOp_of_mem_orderings e.comparison_mem_orderings]
  cases hab : h.compare? a b with
  | none =>
      rw [Value.ordered_of_none ha hb hab]
      constructor
      · intro hholds
        cases hholds
      · intro hsome
        cases hsome
  | some o =>
      rw [Value.ordered_of_some ha hb hab, Option.some.injEq,
        ← Builtin.Extreme.orderingHolds_comparison_iff]
      exact ⟨fun hholds => (EStateM.Result.ok.inj hholds).1, fun hholds => hholds ▸ rfl⟩

/-- An item that is better than another one is so in the order. -/
lemma Holds.ordered (ha : h.Plain a) (hb : h.Plain b) (hab : h.Holds e.comparison a b) :
    h.Ordered a b e.better :=
  .of_compareWithin? ha hb ((holds_comparison_iff ha.isFloat_eq_false hb.isFloat_eq_false).mp hab)

/-- An item that is better in the order is better, if the two can be compared. -/
lemma Ordered.holds (ha : h.Plain a) (hb : h.Plain b) (hcan : h.Orderable a b)
    (hab : h.Ordered a b e.better) : h.Holds e.comparison a b := by
  obtain ⟨o, hcompare, ho⟩ := hcan.ordered ha hb
  rw [holds_comparison_iff ha.isFloat_eq_false hb.isFloat_eq_false, hcompare, ho.unique hab]

/-- A better item is not equal. -/
lemma Ordered.eq_false_of_better (ha : h.Plain a) (hb : h.Plain b)
    (hab : h.Ordered a b e.better) : h.eq a b = false :=
  Bool.eq_false_iff.mpr fun heq => e.better_ne_eq ((hab.eq_iff ha hb).mpr heq)

/-- No item is better than itself. -/
lemma Ordered.not_better_self (ha : h.Plain a) : ¬ h.Ordered a a e.better := by
  intro haa
  have hne := haa.eq_false_of_better ha ha
  rw [eq_refl ha] at hne
  cases hne

/-- What is better than a better item is better. -/
lemma Ordered.better_trans (ha : h.Plain a) (hb : h.Plain b) (hc : h.Plain c)
    (hab : h.Ordered a b e.better) (hbc : h.Ordered b c e.better) : h.Ordered a c e.better := by
  cases e with
  | least => exact hab.trans ha hb hc rfl hbc rfl
  | greatest => exact ((hbc.swap hb hc).trans hc hb ha rfl (hab.swap ha hb) rfl).swap hc ha

/-- An item that is better than `v` is better than those that are not. -/
lemma Ordered.better_of_not_better (hu : h.Plain u) (hv : h.Plain v) (hw : h.Plain w)
    (hwv : h.Ordered w v e.better) (huv : h.Ordered u v o) (ho : o ≠ e.better) :
    h.Ordered w u e.better := by
  by_cases heq : o = .eq
  · have hvu := eq_symm hu hv ((huv.eq_iff hu hv).mp heq)
    exact hwv.congr_right hw hv hu hvu
  · have hvu := huv.swap hu hv
    rw [Extreme.swap_eq_better heq ho] at hvu
    exact hwv.better_trans hw hv hu hvu

/-! ### The first extreme item -/

/-- The item `v` at the index `i` is the first than which no item is better. No item before it is
equal to it. -/
structure FirstExtreme (h : Heap) (e : Extreme) (xs : List Value) (i : Nat) (v : Value) : Prop where
  item : xs[i]? = some v
  extreme : ∀ w ∈ xs, ¬ h.Holds e.comparison w v
  first : ∀ j < i, ∀ u, xs[j]? = some u →
    (∃ w ∈ xs, h.Holds e.comparison w u) ∧ ¬ h.Holds .eq u v

namespace FirstExtreme

variable {seen ws : List Value} {i : Nat}

lemma singleton (hv : h.Plain v) : h.FirstExtreme e [v] 0 v := by
  refine ⟨rfl, fun w hw => ?_, fun j hj => absurd hj (Nat.not_lt_zero j)⟩
  obtain rfl := List.mem_singleton.mp hw
  exact fun hholds => Ordered.not_better_self hv (hholds.ordered hv hv)

/-- An item that is not better than the best so far leaves it in place. -/
lemma keep (hv : h.FirstExtreme e seen i v) (hw : ¬ h.Holds e.comparison w v) :
    h.FirstExtreme e (seen ++ [w]) i v := by
  have hi : i < seen.length := (List.getElem?_eq_some_iff.mp hv.item).1
  refine ⟨?_, ?_, ?_⟩
  · rw [List.getElem?_append_left hi, hv.item]
  · intro u hu
    rcases List.mem_append.mp hu with hu | hu
    · exact hv.extreme u hu
    · exact List.mem_singleton.mp hu ▸ hw
  · intro j hj u hu
    rw [List.getElem?_append_left (hj.trans hi)] at hu
    obtain ⟨⟨x, hx, hbetter⟩, hne⟩ := hv.first j hj u hu
    exact ⟨⟨x, List.mem_append_left _ hx, hbetter⟩, hne⟩

/-- An item that is better than the best so far is better than all the items so far. -/
lemma better_of_mem (hv : h.FirstExtreme e seen i v) (hplain : ∀ x ∈ seen, h.Plain x)
    (hpair : seen.Pairwise h.Orderable) (hw : h.Plain w) (hwv : h.Holds e.comparison w v)
    (hu : u ∈ seen) : h.Ordered w u e.better := by
  have hvmem : v ∈ seen := List.mem_of_getElem? hv.item
  have hbetter := hwv.ordered hw (hplain v hvmem)
  by_cases huv : u = v
  · exact huv ▸ hbetter
  · have hcan := hpair.forall hu hvmem huv
    obtain ⟨o, hcompare, hord⟩ := hcan.ordered (hplain u hu) (hplain v hvmem)
    refine hbetter.better_of_not_better (hplain u hu) (hplain v hvmem) hw hord fun ho => ?_
    refine hv.extreme u hu ((holds_comparison_iff ?_ ?_).mpr (ho ▸ hcompare))
    · exact (hplain u hu).isFloat_eq_false
    · exact (hplain v hvmem).isFloat_eq_false

/-- An item that is better than the best so far takes its place. -/
lemma replace (hv : h.FirstExtreme e seen i v) (hplain : ∀ x ∈ seen, h.Plain x)
    (hpair : seen.Pairwise h.Orderable) (hw : h.Plain w) (hcan : ∀ u ∈ seen, h.Orderable u w)
    (hwv : h.Holds e.comparison w v) : h.FirstExtreme e (seen ++ [w]) seen.length w := by
  have hbetter (u : Value) (hu : u ∈ seen) : h.Ordered w u e.better :=
    hv.better_of_mem hplain hpair hw hwv hu
  refine ⟨?_, ?_, ?_⟩
  · rw [List.getElem?_append_right (Nat.le_refl _), Nat.sub_self, List.getElem?_cons_zero]
  · intro u hu hholds
    rcases List.mem_append.mp hu with hu | hu
    · have huw := hholds.ordered (hplain u hu) hw
      exact Ordered.not_better_self (hplain u hu)
        (huw.better_trans (hplain u hu) hw (hplain u hu) (hbetter u hu))
    · obtain rfl := List.mem_singleton.mp hu
      exact Ordered.not_better_self hw (hholds.ordered hw hw)
  · intro j hj u hu
    rw [List.getElem?_append_left hj] at hu
    have hmem := List.mem_of_getElem? hu
    refine ⟨⟨w, List.mem_append_right _ (List.mem_singleton_self w), ?_⟩, ?_⟩
    · exact (hbetter u hmem).holds hw (hplain u hmem) (hcan u hmem).symm
    · rw [holds_eq_iff, eq_swap (hplain u hmem) hw,
        (hbetter u hmem).eq_false_of_better hw (hplain u hmem)]
      exact Bool.false_ne_true

/-- **One item more**: the better one of it and the best so far is the first extreme item of all. -/
lemma step (hv : h.FirstExtreme e seen i v) (hplain : ∀ x ∈ seen ++ [w], h.Plain x)
    (hpair : (seen ++ [w]).Pairwise h.Orderable) :
    ∃ o j, h.compare? w v = some o ∧
      h.FirstExtreme e (seen ++ [w]) j (if o = e.better then w else v) := by
  obtain ⟨hseen, hw⟩ := List.forall_mem_append.mp hplain
  rw [List.forall_mem_singleton] at hw
  obtain ⟨hpair, -, hcan⟩ := List.pairwise_append.mp hpair
  have hcan (u : Value) (hu : u ∈ seen) : h.Orderable u w := hcan u hu w (List.mem_singleton_self w)
  have hvmem : v ∈ seen := List.mem_of_getElem? hv.item
  have hv' := hseen v hvmem
  obtain ⟨o, hcompare, -⟩ := (hcan v hvmem).symm.ordered hw hv'
  have hholds : h.Holds e.comparison w v ↔ o = e.better := by
    rw [holds_comparison_iff hw.isFloat_eq_false hv'.isFloat_eq_false, hcompare, Option.some.injEq]
  by_cases ho : o = e.better
  · refine ⟨o, seen.length, hcompare, ?_⟩
    rw [if_pos ho]
    exact hv.replace hseen hpair hw hcan (hholds.mpr ho)
  · refine ⟨o, i, hcompare, ?_⟩
    rw [if_neg ho]
    exact hv.keep fun hwv => ho (hholds.mp hwv)

/-- **All the items**: going through those that follow gives the first extreme item of all. -/
theorem best (hv : h.FirstExtreme e seen i v) (hplain : ∀ x ∈ seen ++ ws, h.Plain x)
    (hpair : (seen ++ ws).Pairwise h.Orderable) :
    ∃ j w, Builtin.best e h v ws = .ok w ∧ h.FirstExtreme e (seen ++ ws) j w := by
  induction ws generalizing seen i v with
  | nil =>
      rw [List.append_nil]
      exact ⟨i, v, rfl, hv⟩
  | cons w ws ih =>
      rw [List.append_cons] at hplain hpair ⊢
      obtain ⟨o, j, hcompare, hstep⟩ := hv.step (List.forall_mem_append.mp hplain).1
        (List.pairwise_append.mp hpair).1
      rw [Builtin.best, hcompare]
      exact ih hstep hplain hpair

end FirstExtreme

/-- The first extreme item of some. -/
lemma exists_bestOf {xs : List Value} (hne : xs ≠ []) (hplain : ∀ x ∈ xs, h.Plain x)
    (hpair : xs.Pairwise h.Orderable) :
    ∃ i v, Builtin.bestOf e h xs = .ok v ∧ h.FirstExtreme e xs i v := by
  cases xs with
  | nil => exact absurd rfl hne
  | cons x xs =>
      have hx := hplain x List.mem_cons_self
      exact (FirstExtreme.singleton hx).best hplain hpair

end Heap

namespace Builtin

lemma evaluate_builtin (e : Extreme) (args : Args) : e.builtin.evaluate args = extreme e args := by
  cases e <;> rfl

/-- Two or more arguments are the items themselves. -/
lemma extreme_of_arguments (e : Extreme) {vs : List Value} (hvs : 2 ≤ vs.length) (h : Heap) :
    extreme e ⟨vs, []⟩ h = Eval.ofExcept (bestOf e h vs) h := by
  cases vs with
  | nil => cases hvs
  | cons v vs =>
      cases vs with
      | nil => cases Nat.le_of_succ_le_succ hvs
      | cons w ws =>
          rw [extreme, bind_of_ok (show Args.checkNoKeywords ⟨_, []⟩ e.name h = .ok () h from rfl)]
          dsimp only
          rw [pure_bind]
          refine (bind_of_ok (Eval.get_run h)).trans ?_
          rw [bestOf]
          cases best e h v (w :: ws) <;> rfl

end Builtin

/-- **`min` and `max` give the first extreme item** of two or more arguments, or of the items of a
sequence that is not empty nor too large to be listed. No item may contain a float, and every two of
them can be ordered. The result is the first item than which no item is less or greater: each item
before it has one that is, and is not equal to it. Items may hold themselves. -/
theorem min_max_give_first_extreme (e : Builtin.Extreme) (h : Heap) :
    (∀ vs, 2 ≤ vs.length → (∀ v ∈ vs, h.Plain v) → vs.Pairwise h.Orderable →
      ∃ i v, e.builtin.evaluate ⟨vs, []⟩ h = .ok v h ∧ h.FirstExtreme e vs i v) ∧
    ∀ s, s.isSequence = true → h.contents s ≠ [] → (h.contents s).length ≤ 33554432 →
      ∃ got m, s.items h = .ok got { h with idents := m } ∧
        got.toList.map Value.content = h.contents s ∧
        ((∀ v ∈ got.toList, h.Plain v) → got.toList.Pairwise h.Orderable →
          ∃ i v, e.builtin.evaluate ⟨[s], []⟩ h = .ok v { h with idents := m } ∧
            h.FirstExtreme e got.toList i v) := by
  simp only [Builtin.evaluate_builtin]
  refine ⟨?_, ?_⟩
  · intro vs hvs hplain hpair
    have hne : vs ≠ [] := by
      rintro rfl
      cases hvs
    obtain ⟨i, v, hbest, hfirst⟩ := Heap.exists_bestOf (e := e) hne hplain hpair
    refine ⟨i, v, ?_, hfirst⟩
    rw [Builtin.extreme_of_arguments e hvs, hbest]
    rfl
  · intro s hs hne hle
    obtain ⟨got, m, hitems, hgot⟩ := Value.items_of_le hs hle
    refine ⟨got, m, hitems, hgot, fun hplain hpair => ?_⟩
    have hne' : got.toList ≠ [] := by
      rintro hnil
      rw [hnil] at hgot
      exact hne hgot.symm
    obtain ⟨i, v, hbest, hfirst⟩ := Heap.exists_bestOf (e := e) hne' hplain hpair
    refine ⟨i, v, ?_, hfirst⟩
    rw [Builtin.extreme_of_items hitems, Builtin.bestOf_congr (h.ordersAs_idents m _), hbest]
    rfl

/-- Of three lists the last holds itself, and the one before holds it too and is equal to it: `True`
stands in the place of its number. As arguments the first of these two is the least, and as items of
a tuple the list before them is the greatest. -/
theorem least_of_equal_lists_is_first :
    let h : Heap :=
      { lists := ⟨#[#[.int 1, .list ⟨0⟩], #[.bool true, .list ⟨0⟩], #[.int 2]]⟩ }
    let vs : List Value := [.list ⟨2⟩, .list ⟨1⟩, .list ⟨0⟩]
    ((∀ v ∈ vs, h.Plain v) ∧ vs.Pairwise h.Orderable ∧ h.Holds .eq (.list ⟨1⟩) (.list ⟨0⟩)) ∧
      (Builtin.min.evaluate ⟨vs, []⟩ h = .ok (.list ⟨1⟩) h ∧
        h.FirstExtreme .least vs 1 (.list ⟨1⟩)) ∧
      Builtin.max.evaluate ⟨[.tuple default vs], []⟩ h = .ok (.list ⟨2⟩) h ∧
        h.FirstExtreme .greatest vs 0 (.list ⟨2⟩) := by
  intro h vs
  have hvs (r : Ref .list) (hr : .list r ∈ vs) : r = ⟨2⟩ ∨ r = ⟨1⟩ ∨ r = ⟨0⟩ := by
    simpa only [vs, List.mem_cons, List.not_mem_nil, or_false, Value.list.injEq] using hr
  -- the lists hold numbers and one of the lists
  have hitems (r : Ref .list) (hr : .list r ∈ vs) (x : Value) (hx : x ∈ (h.list r).toList) :
      x ∈ vs ∨ x.isScalar = true := by
    have hself : .list ⟨0⟩ ∈ vs := by simp [vs]
    rcases hvs r hr with rfl | rfl | rfl
    · exact .inr (List.mem_singleton.mp hx ▸ rfl)
    all_goals
      rcases List.mem_pair.mp hx with rfl | rfl
      · exact .inr rfl
      · exact .inl hself
  have hparts : ∀ v w, h.Part v w → v ∈ vs ∨ v.isScalar = true → w ∈ vs ∨ w.isScalar = true := by
    intro v w hvw hv
    induction hvw with
    | refl v => exact hv
    | item _ _ _ => exact absurd hv (by simp [vs, Value.isScalar])
    | dictValue _ _ _ => exact absurd hv (by simp [vs, Value.isScalar])
    | listItem mem _ ih =>
        rcases hv with hv | hv
        · exact ih (hitems _ hv _ mem)
        · cases hv
  have hplain : ∀ v ∈ vs, h.Plain v := by
    intro v hv w hvw
    rcases hparts v w hvw (.inl hv) with hw | hw
    · obtain ⟨r, rfl⟩ : ∃ r, w = .list r := by
        rcases List.mem_cons.mp hw with rfl | hw
        · exact ⟨_, rfl⟩
        · rcases List.mem_pair.mp hw with rfl | rfl <;> exact ⟨_, rfl⟩
      rcases hvs r hw with rfl | rfl | rfl <;> exact ⟨rfl, _, rfl⟩
    · exact ⟨Value.isFloat_of_isScalar hw,
        (Heap.Plain.of_isAtom (Value.isAtom_of_isScalar hw)).allocated⟩
  have hlt (a b : Value) (t : Bool) (hab : Value.compareOp .lt a b h = .ok t h) :
      ¬ h.Raises .lt a b := by
    rintro ⟨c, hraised, -⟩
    rw [hab] at hraised
    cases hraised
  have hpair : vs.Pairwise h.Orderable := by
    simp only [vs, List.pairwise_cons, List.forall_mem_cons]
    refine ⟨⟨⟨hlt _ _ false rfl, hlt _ _ true rfl⟩, ⟨hlt _ _ false rfl, hlt _ _ true rfl⟩,
      List.forall_mem_nil _⟩, ⟨⟨hlt _ _ false rfl, hlt _ _ false rfl⟩, List.forall_mem_nil _⟩,
      List.forall_mem_nil _, .nil⟩
  refine ⟨⟨hplain, hpair, rfl⟩, ?_, ?_⟩
  · have hmin : Builtin.min.evaluate ⟨vs, []⟩ h = .ok (.list ⟨1⟩) h := rfl
    obtain ⟨i, v, hrun, hfirst⟩ :=
      (min_max_give_first_extreme .least h).1 vs (by decide) hplain hpair
    obtain ⟨rfl, -⟩ := EStateM.Result.ok.inj (hmin.symm.trans hrun)
    obtain rfl : i = 1 := by
      have hitem := hfirst.item
      rcases i with _ | _ | _ | i
      · cases hitem
      · rfl
      · cases hitem
      · cases hitem
    exact ⟨rfl, hfirst⟩
  · have hmax : Builtin.max.evaluate ⟨[.tuple default vs], []⟩ h = .ok (.list ⟨2⟩) h := rfl
    have hlisted : Value.items (.tuple default vs) h = .ok vs.toArray h := rfl
    obtain ⟨got, m, hgot, -, hbest⟩ := (min_max_give_first_extreme .greatest h).2
      (.tuple default vs) rfl (List.cons_ne_nil _ _) (by decide)
    obtain ⟨rfl, -⟩ := EStateM.Result.ok.inj (hlisted.symm.trans hgot)
    obtain ⟨i, v, hrun, hfirst⟩ := hbest hplain hpair
    obtain ⟨rfl, -⟩ := EStateM.Result.ok.inj (hmax.symm.trans hrun)
    obtain rfl : i = 0 := by
      have hitem := hfirst.item
      rcases i with _ | _ | _ | i
      · rfl
      · cases hitem
      · cases hitem
      · cases hitem
    exact ⟨rfl, hfirst⟩

end StackVM
