/-
Equality of the parts that it looks at itself: an atom is known by its face, a range by its members,
and a dict by the values of its keys. Dicts are the hard part: they are compared by looking up the
keys of one in the other, and that the second has no further keys is a matter of counting.

* `Value.face`, `Value.eqWith_scalar_iff`: what equality looks at in an atom;
* `Range.sameMembers_refl`, `Range.sameMembers_symm`, `Range.sameMembers_trans`: ranges;
* `forall₂_imp`, `forall₂_trans`: rows of items;
* `Dict.Matches`, `Dict.eqWith_iff`: dicts are equal exactly if each key has equal values in both,
  or none;
* `Dict.Reorders`: dicts that differ in the order of their entries alone.
-/
import StackVM.Proofs.Nesting

namespace StackVM

/-! ### Atoms -/

namespace Value

/-- What equality looks at in an atom: a truth value counts as a number, a string is known by
its text, and other objects are known by their identity. -/
def face : Value → Value
  | .bool b => .int (if b then 1 else 0)
  | .str _ s => .str default s
  | .exception e => .exception ⟨e.ident, default, Option.none⟩
  | .code c => .code ⟨c.ident, default⟩
  | v => v

/-- The value is an atom and no range. -/
def isScalar : Value → Bool
  | .float _ | .tuple _ _ | .list _ | .dict _ | .range _ => false
  | _ => true

lemma isScalar_face (v : Value) : v.face.isScalar = v.isScalar := by
  cases v <;> rfl

lemma isAtom_cases {v : Value} (hv : v.isAtom = true) :
    (∃ r, v = .range r) ∨ v.isScalar = true := by
  cases v with
  | range r => exact .inl ⟨r, rfl⟩
  | float _ => cases hv
  | tuple _ _ => cases hv
  | list _ => cases hv
  | dict _ => cases hv
  | _ => exact .inr rfl

lemma isAtom_of_isScalar {v : Value} (hv : v.isScalar = true) : v.isAtom = true := by
  cases v <;> trivial

lemma isFloat_of_isScalar {v : Value} (hv : v.isScalar = true) : v.isFloat = false := by
  cases v <;> trivial

/-- A scalar is equal to the values with the same face. -/
lemma eqWith_scalar_iff {lists : Ref .list → Ref .list → Bool}
    {dicts : Ref .dict → Ref .dict → Bool} {a b : Value} (ha : a.isScalar = true)
    (hb : b.isFloat = false) : eqWith lists dicts a b = true ↔ a.face = b.face := by
  cases a with
  | float _ => cases ha
  | tuple _ _ => cases ha
  | list _ => cases ha
  | dict _ => cases ha
  | range _ => cases ha
  | _ =>
      cases b with
      | float _ => cases hb
      | _ => simp [eqWith, eqLeaf, is_eq_same, same, asInt?, isFloat, face]

end Value

/-! ### Ranges -/

namespace Range

variable {a b c : Range}

lemma sameMembers_refl (a : Range) : a.sameMembers a = true := by
  simp [sameMembers]

lemma sameMembers_symm (h : a.sameMembers b = true) : b.sameMembers a = true := by
  rw [sameMembers_iff] at h ⊢
  obtain ⟨hsize, hempty | ⟨hstart, hstep⟩⟩ := h
  · exact ⟨hsize.symm, .inl (hsize ▸ hempty)⟩
  · exact ⟨hsize.symm, .inr ⟨hstart.symm, hstep.imp (hsize ▸ ·) Eq.symm⟩⟩

lemma sameMembers_trans (hab : a.sameMembers b = true) (hbc : b.sameMembers c = true) :
    a.sameMembers c = true := by
  rw [sameMembers_iff] at hab hbc ⊢
  obtain ⟨hsize, hab⟩ := hab
  obtain ⟨hsize', hbc⟩ := hbc
  refine ⟨hsize.trans hsize', ?_⟩
  rw [← hsize] at hbc
  rcases hab with hempty | ⟨hstart, hstep⟩
  · exact .inl hempty
  · rcases hbc with hempty | ⟨hstart', hstep'⟩
    · exact .inl hempty
    · refine .inr ⟨hstart.trans hstart', ?_⟩
      rcases hstep with hone | hstep
      · exact .inl hone
      · exact hstep'.imp_right hstep.trans

end Range

/-! ### Rows -/

/-- A relation between rows of items that the items allow to be replaced by another. -/
lemma forall₂_imp {R S : Value → Value → Prop} {xs ys : List Value} (hxy : List.Forall₂ R xs ys)
    (hS : ∀ x ∈ xs, ∀ y ∈ ys, R x y → S x y) : List.Forall₂ S xs ys := by
  induction hxy with
  | nil => exact .nil
  | cons hx _ ih =>
      refine .cons (hS _ List.mem_cons_self _ List.mem_cons_self hx) (ih fun x hx y hy => ?_)
      exact hS x (List.mem_cons_of_mem _ hx) y (List.mem_cons_of_mem _ hy)

/-- Two relations between rows of items, one after the other. -/
lemma forall₂_trans {R S T : Value → Value → Prop} {xs ys zs : List Value}
    (hxy : List.Forall₂ R xs ys) (hyz : List.Forall₂ S ys zs)
    (hT : ∀ x ∈ xs, ∀ y ∈ ys, ∀ z ∈ zs, R x y → S y z → T x z) : List.Forall₂ T xs zs := by
  induction hxy generalizing zs with
  | nil =>
      cases hyz
      exact .nil
  | cons hx _ ih =>
      cases hyz with
      | cons hy hyz =>
          refine .cons (hT _ List.mem_cons_self _ List.mem_cons_self _ List.mem_cons_self hx hy)
            (ih hyz fun x hx y hy z hz => ?_)
          exact hT x (List.mem_cons_of_mem _ hx) y (List.mem_cons_of_mem _ hy) z
            (List.mem_cons_of_mem _ hz)

/-! ### Dicts -/

namespace Dict

/-- The keys of the entries. -/
def hashKeys (d : Dict) : List HashKey :=
  d.entries.toList.map Entry.key

lemma get?_of_mem {d : Dict} {e : Entry} (he : e ∈ d.entries.toList) :
    d.get? e.key = some e.value := by
  obtain ⟨i, hi⟩ := Array.mem_iff_getElem?.mp (Array.mem_toList_iff.mp he)
  simp [get?, d.index_of_entry hi, hi]

lemma exists_mem_of_get? {d : Dict} {k : HashKey} {v : Value} (h : d.get? k = some v) :
    ∃ e ∈ d.entries.toList, e.key = k ∧ e.value = v := by
  rw [get?_eq_find?, Option.map_eq_some_iff] at h
  obtain ⟨e, he, hv⟩ := h
  exact ⟨e, (Array.mem_of_find?_eq_some he).val, by simpa using Array.find?_some he, hv⟩

lemma mem_hashKeys_iff {d : Dict} {k : HashKey} : k ∈ d.hashKeys ↔ ∃ v, d.get? k = some v := by
  rw [hashKeys, List.mem_map]
  constructor
  · rintro ⟨e, he, rfl⟩
    exact ⟨e.value, get?_of_mem he⟩
  · rintro ⟨v, hv⟩
    obtain ⟨e, he, hk, -⟩ := exists_mem_of_get? hv
    exact ⟨e, he, hk⟩

lemma length_hashKeys (d : Dict) : d.hashKeys.length = d.size := by
  simp [hashKeys, size]

/-- No two entries share a key. -/
lemma nodup_hashKeys (d : Dict) : d.hashKeys.Nodup := by
  rw [List.nodup_iff_getElem?_ne_getElem?]
  intro i j hij hj heq
  obtain ⟨k, hk⟩ : ∃ k, d.hashKeys[j]? = some k := ⟨_, List.getElem?_eq_getElem hj⟩
  rw [hk] at heq
  simp only [hashKeys, List.getElem?_map, Array.getElem?_toList] at heq hk
  have hi := (d.index_eq k i).mpr heq
  have hj := (d.index_eq k j).mpr hk
  rw [hi] at hj
  exact absurd (Option.some.inj hj) (Nat.ne_of_lt hij)

/-- Each key has related values in both dicts, or none in either. -/
structure Matches (R : Value → Value → Prop) (a b : Dict) : Prop where
  left : ∀ k v, a.get? k = some v → ∃ w, b.get? k = some w ∧ R v w
  right : ∀ k w, b.get? k = some w → ∃ v, a.get? k = some v ∧ R v w

namespace Matches

variable {R S T : Value → Value → Prop} {a b c : Dict}

lemma imp (hab : Matches R a b)
    (hS : ∀ k v w, a.get? k = some v → b.get? k = some w → R v w → S v w) : Matches S a b := by
  refine ⟨fun k v hv => ?_, fun k w hw => ?_⟩
  · obtain ⟨w, hw, hvw⟩ := hab.left k v hv
    exact ⟨w, hw, hS k v w hv hw hvw⟩
  · obtain ⟨v, hv, hvw⟩ := hab.right k w hw
    exact ⟨v, hv, hS k v w hv hw hvw⟩

lemma flip (hab : Matches R a b) : Matches (flip R) b a :=
  ⟨hab.right, hab.left⟩

/-- Two relations between the values of dicts, one after the other. -/
lemma trans (hab : Matches R a b) (hbc : Matches S b c)
    (hT : ∀ k u v w, a.get? k = some u → b.get? k = some v → c.get? k = some w → R u v → S v w →
      T u w) : Matches T a c := by
  refine ⟨fun k u hu => ?_, fun k w hw => ?_⟩
  · obtain ⟨v, hv, huv⟩ := hab.left k u hu
    obtain ⟨w, hw, hvw⟩ := hbc.left k v hv
    exact ⟨w, hw, hT k u v w hu hv hw huv hvw⟩
  · obtain ⟨v, hv, hvw⟩ := hbc.right k w hw
    obtain ⟨u, hu, huv⟩ := hab.right k v hv
    exact ⟨u, hu, hT k u v w hu hv hw huv hvw⟩

end Matches

/-- If each key of a dict has a value in another that is as large, then the other has no
further keys. -/
lemma get?_of_size_eq {a b : Dict} (hsize : a.size = b.size)
    (hfound : ∀ k v, a.get? k = some v → ∃ w, b.get? k = some w) {k : HashKey} {w : Value}
    (hk : b.get? k = some w) : ∃ v, a.get? k = some v := by
  have hsub : a.hashKeys ⊆ b.hashKeys := by
    intro k hk
    obtain ⟨v, hv⟩ := mem_hashKeys_iff.mp hk
    exact mem_hashKeys_iff.mpr (hfound k v hv)
  have hperm : a.hashKeys.Perm b.hashKeys :=
    (List.subperm_of_subset a.nodup_hashKeys hsub).perm_of_length_le
      (by rw [length_hashKeys, length_hashKeys, hsize])
  exact mem_hashKeys_iff.mp (hperm.mem_iff.mpr (mem_hashKeys_iff.mpr ⟨w, hk⟩))

/-- Dicts with the same keys are equally large. -/
lemma Matches.size_eq {R : Value → Value → Prop} {a b : Dict} (hab : Matches R a b) :
    a.size = b.size := by
  have hkeys : ∀ k, k ∈ a.hashKeys ↔ k ∈ b.hashKeys := by
    intro k
    rw [mem_hashKeys_iff, mem_hashKeys_iff]
    constructor
    · rintro ⟨v, hv⟩
      exact (hab.left k v hv).imp fun _ hw => hw.1
    · rintro ⟨w, hw⟩
      exact (hab.right k w hw).imp fun _ hv => hv.1
  rw [← length_hashKeys, ← length_hashKeys]
  exact ((List.perm_ext_iff_of_nodup a.nodup_hashKeys b.nodup_hashKeys).mpr hkeys).length_eq

/-- **Dicts are equal** exactly if each key has equal values in both of them, or none in
either. -/
theorem eqWith_iff {eq : Value → Value → Bool} {a b : Dict} :
    a.eqWith eq b = true ↔ Matches (fun v w => eq v w = true) a b := by
  rw [eqWith, Bool.and_eq_true, beq_iff_eq, ← Array.all_toList, List.all_eq_true]
  constructor
  · rintro ⟨hsize, hall⟩
    have hleft : ∀ k v, a.get? k = some v → ∃ w, b.get? k = some w ∧ eq v w = true := by
      intro k v hv
      obtain ⟨e, he, rfl, rfl⟩ := exists_mem_of_get? hv
      simpa [Option.any_eq_true] using hall e he
    refine ⟨hleft, fun k w hw => ?_⟩
    obtain ⟨v, hv⟩ := get?_of_size_eq hsize (fun k v hv => (hleft k v hv).imp fun _ h => h.1) hw
    obtain ⟨w', hw', heq⟩ := hleft k v hv
    rw [hw] at hw'
    cases hw'
    exact ⟨v, hv, heq⟩
  · intro hab
    refine ⟨hab.size_eq, fun e he => ?_⟩
    obtain ⟨w, hw, heq⟩ := hab.left e.key e.value (get?_of_mem he)
    rw [hw]
    exact heq

/-- The same keys have the same values, and were stored in whatever order. -/
def Reorders (a b : Dict) : Prop :=
  (a.entries.toList.map fun e => (e.key, e.value)).Perm
    (b.entries.toList.map fun e => (e.key, e.value))

lemma get?_eq_some_iff {d : Dict} {k : HashKey} {v : Value} :
    d.get? k = some v ↔ (k, v) ∈ d.entries.toList.map fun e => (e.key, e.value) := by
  rw [List.mem_map]
  constructor
  · intro h
    obtain ⟨e, he, rfl, rfl⟩ := exists_mem_of_get? h
    exact ⟨e, he, rfl⟩
  · rintro ⟨e, he, heq⟩
    cases heq
    exact get?_of_mem he

lemma Reorders.get?_eq {a b : Dict} (h : a.Reorders b) (k : HashKey) : a.get? k = b.get? k := by
  refine Option.ext fun v => ?_
  rw [get?_eq_some_iff, get?_eq_some_iff]
  exact h.mem_iff

end Dict

/-! ### What is equal to a value of each kind -/

namespace Value

variable {lists : Ref .list → Ref .list → Bool} {dicts : Ref .dict → Ref .dict → Bool}
  {b : Value}

lemma eqWith_range_iff {r : Range} :
    eqWith lists dicts (.range r) b = true ↔ ∃ s, b = .range s ∧ r.sameMembers s = true := by
  cases b <;> simp [eqWith, eqLeaf, is_eq_same, same, asInt?, asDouble?, isFloat]

lemma exists_of_eqWith_tuple {i : Ident} {xs : List Value}
    (h : eqWith lists dicts (.tuple i xs) b = true) : ∃ j ys, b = .tuple j ys := by
  cases b <;> simp_all [eqWith, eqLeaf, is_eq_same, same, asInt?, asDouble?, isFloat]

lemma exists_of_eqWith_list {r : Ref .list} (h : eqWith lists dicts (.list r) b = true) :
    ∃ s, b = .list s := by
  cases b <;> simp_all [eqWith, eqLeaf, is_eq_same, same, asInt?, asDouble?, isFloat]

lemma exists_of_eqWith_dict {r : Ref .dict} (h : eqWith lists dicts (.dict r) b = true) :
    ∃ s, b = .dict s := by
  cases b <;> simp_all [eqWith, eqLeaf, is_eq_same, same, asInt?, asDouble?, isFloat]

end Value

end StackVM
