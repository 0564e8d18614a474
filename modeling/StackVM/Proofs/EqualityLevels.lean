/-
Equality level by level. Lists and dicts are held by reference, so a value may hold itself. Equality
looks a number of levels deep: on the lowest a list or a dict is equal to itself alone, and from one
level to the next more of them become equal. Each level is an equivalence relation on the values
without floats. With each level that makes more of them equal there are fewer classes of lists and
dicts, so that the levels come to an end before there are as many as lists and dicts.

* `Heap.Part`, `Heap.Plain`: no float stands in a value or in what it holds, however deep;
* `Heap.eqWithin_list_iff`, `Heap.eqWithin_dict_iff`: what a level has to do with the one below;
* `Heap.eqWithin_refl`, `Heap.eqWithin_symm`, `Heap.eqWithin_trans`: the laws of each level;
* `Heap.Settled`: a level above which there is nothing new;
* `Heap.settled_nesting`: **the level of equality** is one.
-/
import StackVM.Proofs.Matching

namespace StackVM

namespace Heap

variable {h : Heap}

/-! ### Plain values -/

/-- The value `w` is `v`, or it is held by `v`, or by what that holds, and so on. The keys of dicts
are not looked at. -/
inductive Part (h : Heap) : Value → Value → Prop where
  | refl (v : Value) : Part h v v
  | item {i : Ident} {xs : List Value} {x w : Value} (mem : x ∈ xs) (part : Part h x w) :
      Part h (.tuple i xs) w
  | listItem {r : Ref .list} {x w : Value} (mem : x ∈ (h.list r).toList) (part : Part h x w) :
      Part h (.list r) w
  | dictValue {r : Ref .dict} {e : Dict.Entry} {w : Value} (mem : e ∈ (h.dict r).entries.toList)
      (part : Part h e.value w) : Part h (.dict r) w

/-- The list or dict that a value refers to is there. -/
def Allocated (h : Heap) : Value → Prop
  | .list r => ∃ items, h.lists.get? r = some items
  | .dict r => ∃ d, h.dicts.get? r = some d
  | _ => True

/-- No part of the value is a float, and all the lists and dicts that it refers to are there. The
value may hold itself. -/
def Plain (h : Heap) (v : Value) : Prop :=
  ∀ w, h.Part v w → w.isFloat = false ∧ h.Allocated w

namespace Plain

lemma isFloat_eq_false {v : Value} (hv : h.Plain v) : v.isFloat = false :=
  (hv v (.refl v)).1

lemma allocated {v : Value} (hv : h.Plain v) : h.Allocated v :=
  (hv v (.refl v)).2

lemma items {i : Ident} {xs : List Value} (hv : h.Plain (.tuple i xs)) : ∀ x ∈ xs, h.Plain x :=
  fun _ hx w hw => hv w (.item hx hw)

lemma list_items {r : Ref .list} (hv : h.Plain (.list r)) : ∀ x ∈ (h.list r).toList, h.Plain x :=
  fun _ hx w hw => hv w (.listItem hx hw)

lemma get? {r : Ref .dict} (hv : h.Plain (.dict r)) {k : HashKey} {v : Value}
    (hget : (h.dict r).get? k = some v) : h.Plain v := by
  obtain ⟨e, he, -, rfl⟩ := Dict.exists_mem_of_get? hget
  exact fun w hw => hv w (.dictValue he hw)

lemma of_isAtom {v : Value} (hv : v.isAtom = true) : h.Plain v := by
  intro w hw
  cases hw with
  | refl => cases v <;> trivial
  | item => cases hv
  | listItem => cases hv
  | dictValue => cases hv

/-- A property of plain values holds once tuples inherit it from their items. -/
@[elab_as_elim]
theorem ind {P : ∀ v, h.Plain v → Prop} (atom : ∀ v (hv : v.isAtom = true), P v (.of_isAtom hv))
    (tuple : ∀ i xs (hv : h.Plain (.tuple i xs)), (∀ x hx, P x (hv.items x hx)) →
      P (.tuple i xs) hv)
    (list : ∀ r (hv : h.Plain (.list r)), P (.list r) hv)
    (dict : ∀ r (hv : h.Plain (.dict r)), P (.dict r) hv) {v : Value} (hv : h.Plain v) :
    P v hv := by
  cases v with
  | tuple i xs => exact tuple i xs hv fun x hx => ind atom tuple list dict (hv.items x hx)
  | list r => exact list r hv
  | dict r => exact dict r hv
  | float d => cases hv.isFloat_eq_false
  | _ => exact atom _ rfl
termination_by sizeOf v
decreasing_by
  have := List.sizeOf_lt_of_mem hx
  subst_vars
  simp only [Value.tuple.sizeOf_spec]
  omega

end Plain

lemma Grounded.plain {v : Value} (hv : h.Grounded v) : h.Plain v := by
  obtain ⟨n, hn⟩ := hv
  induction hn with
  | atom isAtom => exact .of_isAtom isAtom
  | tuple _ ih =>
      intro w hw
      cases hw with
      | refl => exact ⟨rfl, trivial⟩
      | item mem part => exact ih _ mem w part
  | list found _ ih =>
      intro w hw
      cases hw with
      | refl => exact ⟨rfl, _, found⟩
      | listItem mem part =>
          rw [list_of_get? found] at mem
          exact ih _ mem w part
  | dict found _ ih =>
      intro w hw
      cases hw with
      | refl => exact ⟨rfl, _, found⟩
      | dictValue mem part =>
          rw [dict_of_get? found] at mem
          exact ih _ mem w part

/-- What holds of plain values can be said of a value that ends without further ado. -/
instance {v : Value} : Coe (h.Grounded v) (h.Plain v) :=
  ⟨Grounded.plain⟩

/-! ### What is equal at a level -/

variable {a b c : Value} {k m : Nat}

lemma eqWithin_scalar_iff (ha : a.isScalar = true) (hb : b.isFloat = false) :
    h.eqWithin k a b = true ↔ a.face = b.face := by
  rw [eqWithin_leaf (Value.isLeaf_of_isLeaf (Value.isAtom_of_isScalar ha)),
    Value.eqWith_scalar_iff ha hb]

lemma eqWithin_range_iff {r : Range} :
    h.eqWithin k (.range r) b = true ↔ ∃ s, b = .range s ∧ r.sameMembers s = true := by
  rw [eqWithin_leaf rfl, Value.eqWith_range_iff]

lemma eqWithin_tuple_iff {i : Ident} {xs : List Value} :
    h.eqWithin k (.tuple i xs) b = true ↔
      ∃ j ys, b = .tuple j ys ∧ List.Forall₂ (fun x y => h.eqWithin k x y = true) xs ys := by
  constructor
  · intro hab
    obtain ⟨lists, dicts, heq⟩ := h.exists_eqWithin_eq_eqWith k
    obtain ⟨j, ys, rfl⟩ := Value.exists_of_eqWith_tuple (heq ▸ hab)
    rw [eqWithin_tuple, Value.eqItems_iff] at hab
    exact ⟨j, ys, rfl, hab⟩
  · rintro ⟨j, ys, rfl, hitems⟩
    rw [eqWithin_tuple]
    exact Value.eqItems_iff.mpr hitems

/-- Lists are equal at a level if they are one list, or their items are equal at the level below. -/
lemma eqWithin_list_iff {r : Ref .list} :
    h.eqWithin k (.list r) b = true ↔ ∃ s, b = .list s ∧ (r = s ∨ ∃ m, k = m + 1 ∧
      List.Forall₂ (fun x y => h.eqWithin m x y = true) (h.list r).toList (h.list s).toList) := by
  constructor
  · intro hab
    obtain ⟨lists, dicts, heq⟩ := h.exists_eqWithin_eq_eqWith k
    obtain ⟨s, rfl⟩ := Value.exists_of_eqWith_list (heq ▸ hab)
    refine ⟨s, rfl, ?_⟩
    cases k with
    | zero => exact .inl (eq_of_beq hab)
    | succ m =>
        rw [eqWithin_list_succ, Bool.or_eq_true, beq_iff_eq, Value.eqItems_iff] at hab
        exact hab.imp_right fun hitems => ⟨m, rfl, hitems⟩
  · rintro ⟨s, rfl, rfl | ⟨m, rfl, hitems⟩⟩
    · cases k with
      | zero => exact beq_self_eq_true r
      | succ m => rw [eqWithin_list_succ, beq_self_eq_true, Bool.true_or]
    · rw [eqWithin_list_succ, Value.eqItems_iff.mpr hitems, Bool.or_true]

/-- Dicts are equal at a level if they are one dict, or the values of each key are equal at the
level below. -/
lemma eqWithin_dict_iff {r : Ref .dict} :
    h.eqWithin k (.dict r) b = true ↔ ∃ s, b = .dict s ∧ (r = s ∨ ∃ m, k = m + 1 ∧
      Dict.Matches (fun v w => h.eqWithin m v w = true) (h.dict r) (h.dict s)) := by
  constructor
  · intro hab
    obtain ⟨lists, dicts, heq⟩ := h.exists_eqWithin_eq_eqWith k
    obtain ⟨s, rfl⟩ := Value.exists_of_eqWith_dict (heq ▸ hab)
    refine ⟨s, rfl, ?_⟩
    cases k with
    | zero => exact .inl (eq_of_beq hab)
    | succ m =>
        rw [eqWithin_dict_succ, Bool.or_eq_true, beq_iff_eq, Dict.eqWith_iff] at hab
        exact hab.imp_right fun hmatch => ⟨m, rfl, hmatch⟩
  · rintro ⟨s, rfl, rfl | ⟨m, rfl, hmatch⟩⟩
    · cases k with
      | zero => exact beq_self_eq_true r
      | succ m => rw [eqWithin_dict_succ, beq_self_eq_true, Bool.true_or]
    · rw [eqWithin_dict_succ, Dict.eqWith_iff.mpr hmatch, Bool.or_true]

/-! ### The laws of a level -/

lemma eqWithin_refl (k : Nat) (ha : h.Plain a) : h.eqWithin k a a = true := by
  induction ha using Plain.ind with
  | atom v hv =>
      rcases Value.isAtom_cases hv with ⟨r, rfl⟩ | hv
      · exact eqWithin_range_iff.mpr ⟨r, rfl, r.sameMembers_refl⟩
      · exact (eqWithin_scalar_iff hv (Value.isFloat_of_isScalar hv)).mpr rfl
  | tuple i xs _ ih => exact eqWithin_tuple_iff.mpr ⟨i, xs, rfl, List.forall₂_same.mpr ih⟩
  | list r _ => exact eqWithin_list_iff.mpr ⟨r, rfl, .inl rfl⟩
  | dict r _ => exact eqWithin_dict_iff.mpr ⟨r, rfl, .inl rfl⟩

lemma eqWithin_symm (ha : h.Plain a) (hb : h.Plain b) (hab : h.eqWithin k a b = true) :
    h.eqWithin k b a = true := by
  -- lists and dicts go down a level, tuples go down in the value
  induction k using Nat.strong_induction_on generalizing a b with
  | _ k below =>
    induction ha using Plain.ind generalizing b with
    | atom v hv =>
        rcases Value.isAtom_cases hv with ⟨r, rfl⟩ | hv
        · obtain ⟨s, rfl, hrs⟩ := eqWithin_range_iff.mp hab
          exact eqWithin_range_iff.mpr ⟨r, rfl, Range.sameMembers_symm hrs⟩
        · have hface := (eqWithin_scalar_iff hv hb.isFloat_eq_false).mp hab
          have hb' : b.isScalar = true := by rw [← b.isScalar_face, ← hface, v.isScalar_face, hv]
          exact (eqWithin_scalar_iff hb' (Value.isFloat_of_isScalar hv)).mpr hface.symm
    | tuple i xs _ ih =>
        obtain ⟨j, ys, rfl, hitems⟩ := eqWithin_tuple_iff.mp hab
        exact eqWithin_tuple_iff.mpr
          ⟨i, xs, rfl, (forall₂_imp hitems fun x hx y hy => ih x hx (hb.items y hy)).flip⟩
    | list r hr =>
        obtain ⟨s, rfl, hrs⟩ := eqWithin_list_iff.mp hab
        refine eqWithin_list_iff.mpr ⟨r, rfl, hrs.imp Eq.symm ?_⟩
        rintro ⟨m, rfl, hitems⟩
        exact ⟨m, rfl, (forall₂_imp hitems fun x hx y hy =>
          below m (Nat.lt_succ_self m) (hr.list_items x hx) (hb.list_items y hy)).flip⟩
    | dict r hr =>
        obtain ⟨s, rfl, hrs⟩ := eqWithin_dict_iff.mp hab
        refine eqWithin_dict_iff.mpr ⟨r, rfl, hrs.imp Eq.symm ?_⟩
        rintro ⟨m, rfl, hmatch⟩
        exact ⟨m, rfl, (hmatch.imp fun k v w hv hw =>
          below m (Nat.lt_succ_self m) (hr.get? hv) (hb.get? hw)).flip⟩

lemma eqWithin_trans (ha : h.Plain a) (hb : h.Plain b) (hc : h.Plain c)
    (hab : h.eqWithin k a b = true) (hbc : h.eqWithin k b c = true) : h.eqWithin k a c = true := by
  induction k using Nat.strong_induction_on generalizing a b c with
  | _ k below =>
    induction ha using Plain.ind generalizing b c with
    | atom v hv =>
        rcases Value.isAtom_cases hv with ⟨r, rfl⟩ | hv
        · obtain ⟨s, rfl, hrs⟩ := eqWithin_range_iff.mp hab
          obtain ⟨t, rfl, hst⟩ := eqWithin_range_iff.mp hbc
          exact eqWithin_range_iff.mpr ⟨t, rfl, Range.sameMembers_trans hrs hst⟩
        · have hface := (eqWithin_scalar_iff hv hb.isFloat_eq_false).mp hab
          have hb' : b.isScalar = true := by rw [← b.isScalar_face, ← hface, v.isScalar_face, hv]
          have hface' := (eqWithin_scalar_iff hb' hc.isFloat_eq_false).mp hbc
          exact (eqWithin_scalar_iff hv hc.isFloat_eq_false).mpr (hface.trans hface')
    | tuple i xs _ ih =>
        obtain ⟨j, ys, rfl, hxy⟩ := eqWithin_tuple_iff.mp hab
        obtain ⟨k, zs, rfl, hyz⟩ := eqWithin_tuple_iff.mp hbc
        exact eqWithin_tuple_iff.mpr ⟨k, zs, rfl, forall₂_trans hxy hyz fun x hx y hy z hz =>
          ih x hx (hb.items y hy) (hc.items z hz)⟩
    | list r hr =>
        obtain ⟨s, rfl, hrs⟩ := eqWithin_list_iff.mp hab
        rcases hrs with rfl | ⟨m, rfl, hxy⟩
        · exact hbc
        obtain ⟨t, rfl, hst⟩ := eqWithin_list_iff.mp hbc
        rcases hst with rfl | ⟨m', hm, hyz⟩
        · exact hab
        obtain rfl : m = m' := Nat.succ.inj hm
        refine eqWithin_list_iff.mpr ⟨t, rfl, .inr ⟨m, rfl, forall₂_trans hxy hyz ?_⟩⟩
        exact fun x hx y hy z hz => below m (Nat.lt_succ_self m) (hr.list_items x hx)
          (hb.list_items y hy) (hc.list_items z hz)
    | dict r hr =>
        obtain ⟨s, rfl, hrs⟩ := eqWithin_dict_iff.mp hab
        rcases hrs with rfl | ⟨m, rfl, huv⟩
        · exact hbc
        obtain ⟨t, rfl, hst⟩ := eqWithin_dict_iff.mp hbc
        rcases hst with rfl | ⟨m', hm, hvw⟩
        · exact hab
        obtain rfl : m = m' := Nat.succ.inj hm
        refine eqWithin_dict_iff.mpr ⟨t, rfl, .inr ⟨m, rfl, huv.trans hvw ?_⟩⟩
        exact fun k u v w hu hv hw => below m (Nat.lt_succ_self m) (hr.get? hu) (hb.get? hv)
          (hc.get? hw)

/-! ### From level to level -/

/-- Values are equal at a level if they are so at another, once this is known of lists and dicts. -/
lemma eqWithin_of_containers
    (lists : ∀ r s, h.Plain (.list r) → h.Plain (.list s) →
      h.eqWithin m (.list r) (.list s) = true → h.eqWithin k (.list r) (.list s) = true)
    (dicts : ∀ r s, h.Plain (.dict r) → h.Plain (.dict s) →
      h.eqWithin m (.dict r) (.dict s) = true → h.eqWithin k (.dict r) (.dict s) = true)
    (ha : h.Plain a) (hb : h.Plain b) (hab : h.eqWithin m a b = true) :
    h.eqWithin k a b = true := by
  induction ha using Plain.ind generalizing b with
  | atom v hv => rwa [eqWithin_leaf (Value.isLeaf_of_isLeaf hv)] at hab ⊢
  | tuple i xs _ ih =>
      obtain ⟨j, ys, rfl, hitems⟩ := eqWithin_tuple_iff.mp hab
      exact eqWithin_tuple_iff.mpr
        ⟨j, ys, rfl, forall₂_imp hitems fun x hx y hy => ih x hx (hb.items y hy)⟩
  | list r hr =>
      obtain ⟨s, rfl, -⟩ := eqWithin_list_iff.mp hab
      exact lists r s hr hb hab
  | dict r hr =>
      obtain ⟨s, rfl, -⟩ := eqWithin_dict_iff.mp hab
      exact dicts r s hr hb hab

/-- If the values of a level are equal at another one, then so are those one above. -/
lemma eqWithin_succ_of_forall
    (hall : ∀ a b, h.Plain a → h.Plain b → h.eqWithin m a b = true → h.eqWithin k a b = true)
    (ha : h.Plain a) (hb : h.Plain b) (hab : h.eqWithin (m + 1) a b = true) :
    h.eqWithin (k + 1) a b = true := by
  refine eqWithin_of_containers ?_ ?_ ha hb hab
  · intro r s hr hs hrs
    obtain ⟨s', hs', heq⟩ := eqWithin_list_iff.mp hrs
    cases hs'
    refine eqWithin_list_iff.mpr ⟨s, rfl, heq.imp_right ?_⟩
    rintro ⟨m', hm, hitems⟩
    cases hm
    exact ⟨k, rfl, forall₂_imp hitems fun x hx y hy =>
      hall x y (hr.list_items x hx) (hs.list_items y hy)⟩
  · intro r s hr hs hrs
    obtain ⟨s', hs', heq⟩ := eqWithin_dict_iff.mp hrs
    cases hs'
    refine eqWithin_dict_iff.mpr ⟨s, rfl, heq.imp_right ?_⟩
    rintro ⟨m', hm, hmatch⟩
    cases hm
    exact ⟨k, rfl, hmatch.imp fun _ v w hv hw => hall v w (hr.get? hv) (hs.get? hw)⟩

/-- What is equal at a level is equal at the next. -/
lemma eqWithin_succ (ha : h.Plain a) (hb : h.Plain b) (hab : h.eqWithin k a b = true) :
    h.eqWithin (k + 1) a b = true := by
  induction k generalizing a b with
  | zero =>
      refine eqWithin_of_containers ?_ ?_ ha hb hab
      · intro r s _ _ hrs
        obtain ⟨s', hs', rfl | ⟨m, hm, -⟩⟩ := eqWithin_list_iff.mp hrs
        · exact eqWithin_list_iff.mpr ⟨s, rfl, .inl (Value.list.inj hs').symm⟩
        · cases hm
      · intro r s _ _ hrs
        obtain ⟨s', hs', rfl | ⟨m, hm, -⟩⟩ := eqWithin_dict_iff.mp hrs
        · exact eqWithin_dict_iff.mpr ⟨s, rfl, .inl (Value.dict.inj hs').symm⟩
        · cases hm
  | succ k ih => exact eqWithin_succ_of_forall (fun a b => ih) ha hb hab

/-- The level above makes no more values equal. -/
def Settled (h : Heap) (k : Nat) : Prop :=
  ∀ a b, h.Plain a → h.Plain b → h.eqWithin (k + 1) a b = true → h.eqWithin k a b = true

/-- Once a level is settled those above are. -/
lemma Settled.succ (hk : h.Settled k) : h.Settled (k + 1) := fun _ _ =>
  eqWithin_succ_of_forall hk

/-! ### Classes of lists and dicts -/

/-- The lists and dicts of the heap that hold no float. -/
def PlainContainer (h : Heap) : Type :=
  { j : Fin h.nesting // h.Plain (h.container j) }

/-- Equality of lists and dicts at a level. -/
def level (h : Heap) (k : Nat) : Setoid h.PlainContainer where
  r i j := h.eqWithin k (h.container i.val) (h.container j.val) = true
  iseqv := ⟨fun i => eqWithin_refl k i.property, fun {i j} => eqWithin_symm i.property j.property,
    fun {i j l} => eqWithin_trans i.property j.property l.property⟩

instance : Finite h.PlainContainer :=
  inferInstanceAs (Finite { j : Fin h.nesting // h.Plain (h.container j) })

lemma Plain.exists_list {r : Ref .list} (hr : h.Plain (.list r)) :
    ∃ i : h.PlainContainer, h.container i.val = .list r := by
  obtain ⟨_, found⟩ := hr.allocated
  obtain ⟨i, hi, heq⟩ := exists_container_list found
  exact ⟨⟨⟨i, hi⟩, heq ▸ hr⟩, heq⟩

lemma Plain.exists_dict {r : Ref .dict} (hr : h.Plain (.dict r)) :
    ∃ i : h.PlainContainer, h.container i.val = .dict r := by
  obtain ⟨_, found⟩ := hr.allocated
  obtain ⟨i, hi, heq⟩ := exists_container_dict found
  exact ⟨⟨⟨i, hi⟩, heq ▸ hr⟩, heq⟩

/-- A level is settled if it is so for lists and dicts. -/
lemma settled_of_level_le (hk : h.level (k + 1) ≤ h.level k) : h.Settled k := by
  have hlevel (i j : h.PlainContainer)
      (hij : h.eqWithin (k + 1) (h.container i.val) (h.container j.val) = true) :
      h.eqWithin k (h.container i.val) (h.container j.val) = true := hk hij
  intro a b
  refine eqWithin_of_containers ?_ ?_
  · intro r s hr hs
    obtain ⟨i, hi⟩ := hr.exists_list
    obtain ⟨j, hj⟩ := hs.exists_list
    exact hi ▸ hj ▸ hlevel i j
  · intro r s hr hs
    obtain ⟨i, hi⟩ := hr.exists_dict
    obtain ⟨j, hj⟩ := hs.exists_dict
    exact hi ▸ hj ▸ hlevel i j

lemma level_le_succ (h : Heap) (k : Nat) : h.level k ≤ h.level (k + 1) := fun {i j} =>
  eqWithin_succ i.property j.property

/-- A coarser equivalence has fewer classes. -/
lemma card_quotient_lt {α : Type} [Finite α] {s t : Setoid α} (hst : s ≤ t) (hts : ¬ t ≤ s) :
    Nat.card (Quotient t) < Nat.card (Quotient s) := by
  let f : Quotient s → Quotient t := Quotient.map id hst
  have hf : Function.Surjective f := by
    intro q
    obtain ⟨a, rfl⟩ := Quotient.exists_rep q
    exact ⟨⟦a⟧, rfl⟩
  by_contra hle
  have hinj := (hf.bijective_of_nat_card_le (Nat.not_lt.mp hle)).injective
  refine hts fun {a b} hab => Quotient.exact (hinj ?_)
  exact Quotient.sound hab

/-- The number of classes goes down with each level that is not settled. -/
lemma card_level_add_le (hk : ∀ m < k, ¬ h.Settled m) :
    Nat.card (Quotient (h.level k)) + k ≤ h.nesting := by
  induction k with
  | zero =>
      calc
        Nat.card (Quotient (h.level 0)) ≤ Nat.card h.PlainContainer :=
          Nat.card_le_card_of_surjective _ Quotient.mk_surjective
        _ ≤ Nat.card (Fin h.nesting) := Finite.card_subtype_le _
        _ = h.nesting := Nat.card_fin _
  | succ k ih =>
      have hlt := card_quotient_lt (h.level_le_succ k) fun hle =>
        hk k (Nat.lt_succ_self k) (settled_of_level_le hle)
      have hle := ih fun m hm => hk m (Nat.lt_succ_of_lt hm)
      omega

/-- **The level of equality is settled**: there are no more levels than lists and dicts. -/
theorem settled_nesting (h : Heap) : h.Settled h.nesting := by
  by_contra hnot
  have hbelow : ∀ m < h.nesting + 1, ¬ h.Settled m := by
    intro m hm hsettled
    have hle := Nat.le_of_lt_succ hm
    exact hnot (Nat.le_induction hsettled (fun _ _ => Settled.succ) h.nesting hle)
  have hcard := card_level_add_le hbelow
  omega

end Heap

end StackVM
