/-
Equality of values is an equivalence relation, as far as no floats are involved. It is the last of
the levels at which values are equal, and has their laws; what the items of a list or a dict are to
each other is a matter of the level below, which makes the same values equal.

* `Heap.eq_scalar_iff`, `Heap.eq_range_iff`, `Heap.eq_tuple_iff`, `Heap.Plain.eq_list_iff`,
  `Heap.eq_dict_iff`: what is equal to a value of each kind;
* `Heap.eq_refl`, `Heap.eq_symm`, `Heap.eq_trans`, `Heap.eq_of_is`: the laws;
* `equality_is_equivalence`: the laws together, and equality of dicts in any order.
-/
import StackVM.Proofs.EqualityLevels

namespace StackVM

namespace Heap

variable {h : Heap} {a b c : Value}

/-! ### The laws -/

/-- A value is equal to itself. -/
lemma eq_refl (ha : h.Plain a) : h.eq a a = true :=
  eqWithin_refl h.nesting ha

/-- Equality is symmetric. -/
lemma eq_symm (ha : h.Plain a) (hb : h.Plain b) (hab : h.eq a b = true) : h.eq b a = true :=
  eqWithin_symm ha hb hab

/-- Equality does not depend on the side. -/
lemma eq_swap (ha : h.Plain a) (hb : h.Plain b) : h.eq a b = h.eq b a := by
  rw [Bool.eq_iff_iff]
  exact ⟨eq_symm ha hb, eq_symm hb ha⟩

/-- Equality is transitive. -/
lemma eq_trans (ha : h.Plain a) (hb : h.Plain b) (hc : h.Plain c) (hab : h.eq a b = true)
    (hbc : h.eq b c = true) : h.eq a c = true :=
  eqWithin_trans ha hb hc hab hbc

/-- Equal values are equal to the same values. -/
lemma eq_congr {a' b' : Value} (ha : h.Plain a) (ha' : h.Plain a') (hb : h.Plain b)
    (hb' : h.Plain b') (haa' : h.eq a a' = true) (hbb' : h.eq b b' = true) :
    h.eq a b = h.eq a' b' := by
  rw [Bool.eq_iff_iff]
  constructor
  · intro hab
    exact eq_trans ha' ha hb' (eq_symm ha ha' haa') (eq_trans ha hb hb' hab hbb')
  · intro hab
    exact eq_trans ha ha' hb haa' (eq_trans ha' hb' hb hab (eq_symm hb hb' hbb'))

/-! ### What is equal to a value of each kind -/

/-- A scalar is equal to the values with the same face. -/
lemma eq_scalar_iff (ha : a.isScalar = true) (hb : b.isFloat = false) :
    h.eq a b = true ↔ a.face = b.face :=
  eqWithin_scalar_iff ha hb

/-- A range is equal to the ranges with the same members. -/
lemma eq_range_iff {r : Range} :
    h.eq (.range r) b = true ↔ ∃ s, b = .range s ∧ r.sameMembers s = true :=
  eqWithin_range_iff

/-- A tuple is equal to the tuples with equal items. -/
lemma eq_tuple_iff {i : Ident} {xs : List Value} :
    h.eq (.tuple i xs) b = true ↔
      ∃ j ys, b = .tuple j ys ∧ List.Forall₂ (fun x y => h.eq x y = true) xs ys :=
  eqWithin_tuple_iff

/-- Lists are equal if their items are. -/
lemma Plain.eq_list_iff {r s : Ref .list} (hr : h.Plain (.list r)) (hs : h.Plain (.list s)) :
    h.eq (.list r) (.list s) = true ↔
      List.Forall₂ (fun x y => h.eq x y = true) (h.list r).toList (h.list s).toList := by
  constructor
  · intro hrs
    obtain ⟨s', hs', hrs⟩ := eqWithin_list_iff.mp hrs
    cases hs'
    rcases hrs with rfl | ⟨m, hm, hitems⟩
    · exact List.forall₂_same.mpr fun x hx => eq_refl (hr.list_items x hx)
    · refine forall₂_imp hitems fun x hx y hy hxy => ?_
      rw [eq, hm]
      exact eqWithin_succ (hr.list_items x hx) (hs.list_items y hy) hxy
  · intro hitems
    exact h.settled_nesting _ _ hr hs
      (eqWithin_list_iff.mpr ⟨s, rfl, .inr ⟨h.nesting, rfl, hitems⟩⟩)

/-- The values of a dict that ends do so. -/
lemma Grounded.get? {r : Ref .dict} (hr : h.Grounded (.dict r)) {k : HashKey} {v : Value}
    (hv : (h.dict r).get? k = some v) : h.Grounded v := by
  obtain ⟨e, he, -, rfl⟩ := Dict.exists_mem_of_get? hv
  exact hr.dict_values e he

/-- A dict is equal to the dicts in which each key has an equal value, or none. -/
lemma eq_dict_iff {r : Ref .dict} (hr : h.Grounded (.dict r)) :
    h.eq (.dict r) b = true ↔
      ∃ s, b = .dict s ∧ Dict.Matches (fun v w => h.eq v w = true) (h.dict r) (h.dict s) := by
  constructor
  · intro hab
    obtain ⟨s, rfl, -⟩ := eqWithin_dict_iff.mp hab
    rw [eq_dict hr, Bool.or_eq_true, beq_iff_eq, Dict.eqWith_iff] at hab
    rcases hab with rfl | hmatch
    · exact ⟨r, rfl, fun k v hv => ⟨v, hv, eq_refl (hr.get? hv)⟩,
        fun k v hv => ⟨v, hv, eq_refl (hr.get? hv)⟩⟩
    · exact ⟨s, rfl, hmatch⟩
  · rintro ⟨s, rfl, hmatch⟩
    rw [eq_dict hr, Dict.eqWith_iff.mpr hmatch, Bool.or_true]

end Heap

namespace Value

lemma face_eq_of_same {a b : Value} (ha : a.isScalar = true) (hab : a.same b = true) :
    a.face = b.face := by
  cases a with
  | float _ => cases ha
  | tuple _ _ => cases ha
  | list _ => cases ha
  | dict _ => cases ha
  | range _ => cases ha
  | _ => cases b <;> simp_all [same, face]

lemma sameAll_iff {xs ys : List Value} :
    sameAll xs ys = true ↔ List.Forall₂ (fun x y => same x y = true) xs ys := by
  induction xs generalizing ys with
  | nil => cases ys <;> simp [sameAll]
  | cons x xs ih => cases ys <;> simp [sameAll, ih]

end Value

namespace Heap

variable {h : Heap} {a b : Value}

/-- A value is equal to itself, wherever it is held. -/
lemma eq_of_is (ha : h.Grounded a) (hb : h.Grounded b) (hab : a.is b = true) :
    h.eq a b = true := by
  rw [Value.is_eq_same] at hab
  induction ha using Grounded.ind generalizing b with
  | atom v hv =>
      rcases Value.isAtom_cases hv with ⟨r, rfl⟩ | hv
      · cases b with
        | range s =>
            obtain rfl : r = s := by simpa [Value.same] using hab
            exact eq_refl hb
        | _ => cases hab
      · exact (eq_scalar_iff hv hb.isFloat_eq_false).mpr (Value.face_eq_of_same hv hab)
  | tuple i xs _ ih =>
      cases b with
      | tuple j ys =>
          have hitems : List.Forall₂ (fun x y => Value.same x y = true) xs ys := by
            simp only [Value.same, Bool.and_eq_true] at hab
            exact Value.sameAll_iff.mp hab.2
          exact eq_tuple_iff.mpr
            ⟨j, ys, rfl, forall₂_imp hitems fun x hx y hy => ih x hx (hb.items y hy)⟩
      | _ => cases hab
  | list r hr _ =>
      cases b with
      | list s =>
          obtain rfl : r = s := by simpa [Value.same] using hab
          exact eq_refl hb
      | _ => cases hab
  | dict r hr _ =>
      cases b with
      | dict s =>
          obtain rfl : r = s := by simpa [Value.same] using hab
          exact eq_refl hb
      | _ => cases hab

/-- Dicts with the same entries are equal, in whatever order these were stored. -/
lemma eq_of_reorders {p q : Ref .dict} (hp : h.Grounded (.dict p))
    (hpq : (h.dict p).Reorders (h.dict q)) : h.eq (.dict p) (.dict q) = true := by
  refine (eq_dict_iff hp).mpr ⟨q, rfl, fun k v hv => ?_, fun k v hv => ?_⟩
  · exact ⟨v, hpq.get?_eq k ▸ hv, eq_refl (hp.get? hv)⟩
  · rw [← hpq.get?_eq k] at hv
    exact ⟨v, hv, eq_refl (hp.get? hv)⟩

end Heap

/-- **Equality is an equivalence relation** on the values that end and hold no float. Values
that are one and the same are equal. Whether two dicts are equal does not depend on the order
in which the entries of either were stored. -/
theorem equality_is_equivalence (h : Heap) :
    Equivalence (fun a b : { v : Value // h.Grounded v } => h.eq a b = true) ∧
      (∀ a b, h.Grounded a → h.Grounded b → a.is b = true → h.eq a b = true) ∧
      ∀ p p' q q', h.Grounded (.dict p) → h.Grounded (.dict p') → h.Grounded (.dict q) →
        h.Grounded (.dict q') → (h.dict p).Reorders (h.dict p') →
        (h.dict q).Reorders (h.dict q') →
          h.eq (.dict p) (.dict q) = h.eq (.dict p') (.dict q') := by
  refine ⟨⟨?_, ?_, ?_⟩, ?_, ?_⟩
  · rintro ⟨a, ha⟩
    exact Heap.eq_refl ha
  · rintro ⟨a, ha⟩ ⟨b, hb⟩
    exact Heap.eq_symm ha hb
  · rintro ⟨a, ha⟩ ⟨b, hb⟩ ⟨c, hc⟩
    exact Heap.eq_trans ha hb hc
  · intro a b ha hb
    exact Heap.eq_of_is ha hb
  · intro p p' q q' hp hp' hq hq' hpp' hqq'
    exact Heap.eq_congr hp hp' hq hq' (Heap.eq_of_reorders hp hpp') (Heap.eq_of_reorders hq hqq')

/-- The entries of a dict in which two keys were stored. -/
lemma Dict.entries_pair {k l : HashKey} (hkl : k ≠ l) (s v t w : Value) :
    ((Dict.empty.set k s v).set l t w).entries.toList = [⟨k, s, v⟩, ⟨l, t, w⟩] := by
  have hempty (m : HashKey) : Dict.empty.contains m = false := by simp [contains, empty]
  have hl : (Dict.empty.set k s v).contains l = false := by
    rw [contains_eq_isSome, get?_set_of_ne _ hkl, ← contains_eq_isSome, hempty]
  rw [entries_set, hl, entries_set, hempty]
  rfl

/-- Two dicts with a number and a list, stored in either order, are equal to a third one with
an equal number and an equal list; the lists hold a range and a tuple. -/
theorem nested_dicts_are_equal :
    let x : Value := .str (.made 0) "x"
    let y : Value := .str (.made 1) "y"
    let h : Heap :=
      { lists := ⟨#[#[.range ⟨0, 5, 2, by decide⟩, .tuple (.made 2) [.none]],
          #[.range ⟨0, 6, 2, by decide⟩, .tuple (.made 3) [.none]]]⟩
        dicts := ⟨#[(Dict.empty.set (.str "x") x (.int 1)).set (.str "y") y (.list ⟨0⟩),
          (Dict.empty.set (.str "y") y (.list ⟨0⟩)).set (.str "x") x (.int 1),
          (Dict.empty.set (.str "y") y (.list ⟨1⟩)).set (.str "x") x (.bool true)]⟩ }
    (h.Grounded (.dict ⟨0⟩) ∧ h.Grounded (.dict ⟨1⟩) ∧ h.Grounded (.dict ⟨2⟩) ∧
        (h.dict ⟨0⟩).Reorders (h.dict ⟨1⟩) ∧ h.eq (.dict ⟨1⟩) (.dict ⟨2⟩) = true) ∧
      h.eq (.dict ⟨0⟩) (.dict ⟨2⟩) = true ∧ h.eq (.dict ⟨2⟩) (.dict ⟨0⟩) = true ∧
        h.eq (.list ⟨0⟩) (.list ⟨0⟩) = true := by
  intro x y h
  have hxy : HashKey.str "x" ≠ HashKey.str "y" := by decide
  have h₀ : (h.dict ⟨0⟩).entries.toList =
      [⟨.str "x", x, .int 1⟩, ⟨.str "y", y, .list ⟨0⟩⟩] := Dict.entries_pair hxy ..
  have h₁ : (h.dict ⟨1⟩).entries.toList =
      [⟨.str "y", y, .list ⟨0⟩⟩, ⟨.str "x", x, .int 1⟩] := Dict.entries_pair hxy.symm ..
  have h₂ : (h.dict ⟨2⟩).entries.toList =
      [⟨.str "y", y, .list ⟨1⟩⟩, ⟨.str "x", x, .bool true⟩] := Dict.entries_pair hxy.symm ..
  have hlist : h.Nested 1 (.list ⟨0⟩) ∧ h.Nested 1 (.list ⟨1⟩) := by
    constructor
    all_goals
      refine .list rfl fun v hv => ?_
      rcases List.mem_pair.mp hv with rfl | rfl
      · exact .atom rfl
      · exact .tuple fun v hv => List.mem_singleton.mp hv ▸ .atom rfl
  have hground (r : Ref .dict) {d : Dict} (found : h.dicts.get? r = some d) (v w : Value)
      (hv : h.Nested 1 v) (hw : h.Nested 1 w)
      (hd : d.entries.toList.map Dict.Entry.value = [v, w]) :
      h.Grounded (.dict r) := by
    refine ⟨2, .dict found fun e he => ?_⟩
    have hmem := List.mem_map_of_mem (f := Dict.Entry.value) he
    rw [hd] at hmem
    rcases List.mem_pair.mp hmem with heq | heq
    · exact heq ▸ hv
    · exact heq ▸ hw
  have hg₀ : h.Grounded (.dict ⟨0⟩) :=
    hground ⟨0⟩ rfl _ _ (.atom rfl) hlist.1 (congrArg (List.map Dict.Entry.value) h₀)
  have hg₁ : h.Grounded (.dict ⟨1⟩) :=
    hground ⟨1⟩ rfl _ _ hlist.1 (.atom rfl) (congrArg (List.map Dict.Entry.value) h₁)
  have hg₂ : h.Grounded (.dict ⟨2⟩) :=
    hground ⟨2⟩ rfl _ _ hlist.2 (.atom rfl) (congrArg (List.map Dict.Entry.value) h₂)
  have hreorders : (h.dict ⟨0⟩).Reorders (h.dict ⟨1⟩) := by
    rw [Dict.Reorders, h₀, h₁]
    exact List.Perm.swap ..
  have heq : h.eq (.dict ⟨1⟩) (.dict ⟨2⟩) = true := by
    refine (Heap.eq_dict_iff hg₁).mpr ⟨⟨2⟩, rfl, Dict.eqWith_iff.mp ?_⟩
    have hgety : (h.dict ⟨2⟩).get? (.str "y") = some (.list ⟨1⟩) :=
      Dict.get?_of_mem (e := ⟨.str "y", y, .list ⟨1⟩⟩) (by simp [h₂])
    have hgetx : (h.dict ⟨2⟩).get? (.str "x") = some (.bool true) :=
      Dict.get?_of_mem (e := ⟨.str "x", x, .bool true⟩) (by simp [h₂])
    have hsize : (h.dict ⟨1⟩).size = (h.dict ⟨2⟩).size := by
      simp [← Dict.length_hashKeys, Dict.hashKeys, h₁, h₂]
    have hlists : h.eq (.list ⟨0⟩) (.list ⟨1⟩) = true := by decide
    have hbool : h.eq (.int 1) (.bool true) = true := by decide
    rw [Dict.eqWith, hsize, beq_self_eq_true, Bool.true_and, ← Array.all_toList, h₁]
    simp [hgety, hgetx, hlists, hbool]
  obtain ⟨equiv, identity, order⟩ := equality_is_equivalence h
  have heq' : h.eq (.dict ⟨0⟩) (.dict ⟨2⟩) = true :=
    (order ⟨0⟩ ⟨1⟩ ⟨2⟩ ⟨2⟩ hg₀ hg₁ hg₂ hg₂ hreorders (.refl _)).trans heq
  exact ⟨⟨hg₀, hg₁, hg₂, hreorders, heq⟩, heq', equiv.symm (x := ⟨_, hg₀⟩) (y := ⟨_, hg₂⟩) heq',
    identity _ _ ⟨1, hlist.1⟩ ⟨1, hlist.1⟩ rfl⟩

end StackVM
