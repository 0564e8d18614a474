/-
Keys of dicts and equality of values. A dict finds its entries by keys, so a key should
say of two values whether they are equal.

* `Range.Told`: two ranges on which keys do so; exactly the pairs on which sharing a key
  is having the same members (`Range.told_iff`);
* `Value.leaves`: what stands in a value, through its tuples;
* `Value.RangesTold`: ranges that stand at one place in two values are told apart;
* `Value.hashKey?_eq_iff`: without floats, and where the ranges are told apart, a value has
  the key of another one exactly if the two are equal;
* `hash_keys_agree_with_equality`: so an entry stored under one value is found under
  another exactly if the two are equal;
* `hash_keys_disagree_on_ranges`: two pairs of ranges that are not told apart.
-/
import StackVM.Heap.Dict
import StackVM.Value.Equality
import Mathlib.Tactic.Lemma
import Mathlib.Tactic.Tauto

namespace StackVM

/-! ### Ranges -/

namespace Range

/-- The sizes of ranges that hash keys tell apart end here: a longer range is keyed as
if it had this many members. -/
def keyCap : Nat :=
  0x7fffffffffffffff

/-- The keys of two ranges tell whether they have the same members, unless both have one
member and are written with different steps, or both are too long for a key. -/
def Told (a b : Range) : Prop :=
  (a.size = 1 → b.size = 1 → a.start = b.start → a.step = b.step) ∧
    (keyCap ≤ a.size → keyCap ≤ b.size → a.start = b.start → a.step = b.step →
      a.size = b.size)

end Range

/-- Sizes up to the largest one of a key survive the way into 64 bits. -/
lemma ofNat_inj_of_le {m n : Nat} (hm : m ≤ Range.keyCap) (hn : n ≤ Range.keyCap) :
    Int64.ofNat m = Int64.ofNat n ↔ m = n := by
  constructor
  · intro h
    have h' := congrArg Int64.toInt h
    unfold Range.keyCap at hm hn
    rw [Int64.toInt_ofNat_of_lt (by omega), Int64.toInt_ofNat_of_lt (by omega)] at h'
    exact Int.ofNat.inj h'
  · rintro rfl; rfl

/-- The key of a range is that of no other kind of value. -/
lemma HashKey.exists_ofRange_eq (r : Range) :
    ∃ start size step, HashKey.ofRange r = .range start size step := by
  unfold HashKey.ofRange
  split <;> exact ⟨_, _, _, rfl⟩

/-- Two ranges share a key if both are empty, or both start at one place, go by one step,
and have as many members, as far as keys count. -/
lemma HashKey.ofRange_eq_iff (a b : Range) :
    HashKey.ofRange a = HashKey.ofRange b ↔
      (a.size = 0 ∧ b.size = 0) ∨
        (a.size ≠ 0 ∧ b.size ≠ 0 ∧ a.start = b.start ∧ a.step = b.step ∧
          min a.size Range.keyCap = min b.size Range.keyCap) := by
  have hcap : Range.keyCap = 0x7fffffffffffffff := rfl
  have hsize := ofNat_inj_of_le (Nat.min_le_right a.size Range.keyCap)
    (Nat.min_le_right b.size Range.keyCap)
  rw [hcap] at hsize ⊢
  have ha := a.step_ne_zero
  have hb := b.step_ne_zero
  by_cases ha0 : a.size = 0 <;> by_cases hb0 : b.size = 0 <;>
    simp [HashKey.ofRange, Range.isEmpty, ha0, hb0, hsize, ha, hb.symm]
  tauto

/-- Whether two ranges have the same members, in terms of their bounds. -/
lemma Range.sameMembers_iff (a b : Range) :
    a.sameMembers b = true ↔
      a.size = b.size ∧
        (a.size = 0 ∨ (a.start = b.start ∧ (a.size = 1 ∨ a.step = b.step))) := by
  simp [Range.sameMembers, Range.isEmpty]

/-- Ranges that are told apart are exactly those on which keys agree with equality. -/
lemma Range.told_iff (a b : Range) :
    a.Told b ↔ (HashKey.ofRange a = HashKey.ofRange b ↔ a.sameMembers b = true) := by
  have hcap : 1 < Range.keyCap := by decide
  rw [HashKey.ofRange_eq_iff, Range.sameMembers_iff]
  constructor
  · rintro ⟨hone, hlong⟩
    constructor
    · rintro (⟨ha, hb⟩ | ⟨ha, hb, hstart, hstep, hsize⟩)
      · exact ⟨by omega, .inl ha⟩
      · have : a.size = b.size := by
          rcases Nat.lt_or_ge a.size Range.keyCap with h | h
          · omega
          · exact hlong h (by omega) hstart hstep
        exact ⟨this, .inr ⟨hstart, .inr hstep⟩⟩
    · rintro ⟨hsize, ha | ⟨hstart, hstep⟩⟩
      · exact .inl ⟨ha, by omega⟩
      · rcases Nat.eq_zero_or_pos a.size with ha | ha
        · exact .inl ⟨ha, by omega⟩
        · refine .inr ⟨by omega, by omega, hstart, ?_, by rw [hsize]⟩
          exact hstep.elim (fun h => hone h (by omega) hstart) id
  · intro h
    refine ⟨fun ha hb hstart => ?_, fun ha hb hstart hstep => ?_⟩
    · rcases h.2 ⟨by omega, .inr ⟨hstart, .inl ha⟩⟩ with ⟨h0, _⟩ | ⟨_, _, _, hstep, _⟩
      · omega
      · exact hstep
    · exact (h.1 (.inr ⟨by omega, by omega, hstart, hstep, by omega⟩)).1

/-! ### Values -/

namespace Value

mutual

/-- The values that stand in a value: itself, or in place of a tuple those of its
items. -/
def leaves : Value → List Value
  | .tuple _ xs => leavesAll xs
  | v => [v]
termination_by structural v => v

/-- The values that stand in some values. -/
def leavesAll : List Value → List Value
  | [] => []
  | v :: vs => leaves v ++ leavesAll vs
termination_by structural vs => vs

end

/-- No float stands among the values. -/
def FloatFree (vs : List Value) : Prop :=
  ∀ v ∈ vs, v.isFloat = false

mutual

/-- Ranges that stand at one place in the two values are told apart by their keys. Where tuples
are not equally long there is no such place. -/
def RangesTold : Value → Value → Prop
  | .tuple _ xs, .tuple _ ys => xs.length = ys.length → RangesToldAll xs ys
  | .range r, .range s => r.Told s
  | _, _ => True
termination_by structural v => v

/-- The same for values in a row. -/
def RangesToldAll : List Value → List Value → Prop
  | x :: xs, y :: ys => RangesTold x y ∧ RangesToldAll xs ys
  | _, _ => True
termination_by structural vs => vs

end

/-- The key of a tuple is made of those of its items. -/
lemma hashKey?_tuple_iff {i : Ident} {xs : List Value} {k : HashKey} :
    (Value.tuple i xs).hashKey? = .ok k ↔ ∃ ks, hashKeys? xs = .ok ks ∧ HashKey.tuple ks = k := by
  rw [hashKey?]
  cases hashKeys? xs <;> simp

/-- The keys of values in a row are those of the first and of the others. -/
lemma hashKeys?_cons_iff {v : Value} {vs : List Value} {ks : List HashKey} :
    hashKeys? (v :: vs) = .ok ks ↔
      ∃ l ls, v.hashKey? = .ok l ∧ hashKeys? vs = .ok ls ∧ l :: ls = ks := by
  rw [hashKeys?]
  cases v.hashKey? <;> cases hashKeys? vs <;> simp

/-- There are as many keys as values. -/
lemma length_eq_of_hashKeys? : ∀ {vs : List Value} {ks : List HashKey}, hashKeys? vs = .ok ks →
    ks.length = vs.length
  | [], ks, h => by
    cases h
    rfl
  | v :: vs, ks, h => by
    obtain ⟨l, ls, -, hls, rfl⟩ := hashKeys?_cons_iff.1 h
    simp [length_eq_of_hashKeys? hls]

/-- Lists of values that are equal item by item are equally long. -/
lemma length_eq_of_eqAllWith {lists : Ref .list → Ref .list → Bool}
    {dicts : Ref .dict → Ref .dict → Bool} :
    ∀ {xs ys : List Value}, eqAllWith lists dicts xs ys = true → xs.length = ys.length
  | [], [], _ => rfl
  | x :: xs, y :: ys, h => by
    simp only [eqAllWith, Bool.and_eq_true] at h
    simp [length_eq_of_eqAllWith h.2]
  | [], _ :: _, h | _ :: _, [], h => by simp [eqAllWith] at h

/-- Tuples are equal if their items are. -/
lemma eqWith_tuple (lists : Ref .list → Ref .list → Bool) (dicts : Ref .dict → Ref .dict → Bool)
    (i j : Ident) (xs ys : List Value) :
    eqWith lists dicts (.tuple i xs) (.tuple j ys) = eqAllWith lists dicts xs ys := by
  cases h : eqAllWith lists dicts xs ys with
  | false => simp [eqWith, h]
  | true => simp [eqWith, h, length_eq_of_eqAllWith h]

/-- A float is not free of floats. -/
lemma not_floatFree_float {d : Double} : ¬ FloatFree (Value.float d).leaves :=
  fun h => Bool.noConfusion (h _ (List.mem_singleton_self _))

mutual

/-- A value has the key of another one exactly if the two are equal. -/
lemma hashKey?_eq_iff (lists : Ref .list → Ref .list → Bool)
    (dicts : Ref .dict → Ref .dict → Bool) :
    ∀ (a b : Value) {k : HashKey}, a.hashKey? = .ok k → FloatFree a.leaves →
      FloatFree b.leaves → RangesTold a b →
      (.ok k = b.hashKey? ↔ eqWith lists dicts a b = true)
  | .tuple _ xs, b, k, ha, fa, fb, hr => by
    obtain ⟨ks, hks, rfl⟩ := hashKey?_tuple_iff.1 ha
    cases b with
    | tuple _ ys =>
      rw [eq_comm, hashKey?_tuple_iff, eqWith_tuple]
      by_cases hlength : xs.length = ys.length
      · rw [← hashKeys?_eq_iff lists dicts xs ys hks fa fb (hr hlength)]
        simpa using eq_comm
      · -- neither keys nor tuples of different lengths are the same
        refine iff_of_false ?_ (mt length_eq_of_eqAllWith hlength)
        rintro ⟨ks', hks', heq⟩
        cases heq
        exact hlength ((length_eq_of_hashKeys? hks).symm.trans (length_eq_of_hashKeys? hks'))
    | range s =>
      obtain ⟨_, _, _, hs⟩ := HashKey.exists_ofRange_eq s
      simp [hashKey?, hs, eqWith, eqLeaf, is_eq_same, same, asInt?, isFloat]
    | float d => exact (not_floatFree_float fb).elim
    | _ => simp [hashKey?, eqWith, eqLeaf, is_eq_same, same, asInt?, isFloat]
  | .range r, b, k, ha, fa, fb, hr => by
    cases ha
    cases b with
    | range s =>
      simpa [hashKey?, eqWith] using (Range.told_iff r s).1 hr
    | tuple _ ys =>
      obtain ⟨_, _, _, hs⟩ := HashKey.exists_ofRange_eq r
      rw [eq_comm, hashKey?_tuple_iff]
      simp [hs, eqWith, eqLeaf, is_eq_same, same, asInt?, isFloat]
    | float d => exact (not_floatFree_float fb).elim
    | _ =>
      obtain ⟨_, _, _, hs⟩ := HashKey.exists_ofRange_eq r
      simp [hashKey?, hs, eqWith, eqLeaf, is_eq_same, same, asInt?, isFloat]
  | .none, b, k, ha, fa, fb, hr
  | .bool _, b, k, ha, fa, fb, hr
  | .int _, b, k, ha, fa, fb, hr
  | .str _ _, b, k, ha, fa, fb, hr
  | .builtin _, b, k, ha, fa, fb, hr
  | .excClass _, b, k, ha, fa, fb, hr
  | .exception _, b, k, ha, fa, fb, hr
  | .function _, b, k, ha, fa, fb, hr
  | .code _, b, k, ha, fa, fb, hr
  | .cell _, b, k, ha, fa, fb, hr => by
    cases ha
    cases b with
    | tuple _ ys =>
      rw [eq_comm, hashKey?_tuple_iff]
      simp [eqWith, eqLeaf, is_eq_same, same, asInt?, isFloat]
    | range s =>
      obtain ⟨_, _, _, hs⟩ := HashKey.exists_ofRange_eq s
      simp [hashKey?, hs, eqWith, eqLeaf, is_eq_same, same, asInt?, isFloat]
    | float d => exact (not_floatFree_float fb).elim
    | _ => simp [hashKey?, eqWith, eqLeaf, is_eq_same, same, asInt?, isFloat]
  | .float _, b, k, ha, fa, fb, hr => (not_floatFree_float fa).elim
  | .list _, b, k, ha, fa, fb, hr => by cases ha
  | .dict _, b, k, ha, fa, fb, hr => by cases ha
  | .iter _, b, k, ha, fa, fb, hr => by cases ha

/-- Values in a row have the keys of others exactly if they are equal, item by item. -/
lemma hashKeys?_eq_iff (lists : Ref .list → Ref .list → Bool)
    (dicts : Ref .dict → Ref .dict → Bool) :
    ∀ (xs ys : List Value) {ks : List HashKey}, hashKeys? xs = .ok ks →
      FloatFree (leavesAll xs) → FloatFree (leavesAll ys) →
      RangesToldAll xs ys →
      (.ok ks = hashKeys? ys ↔ eqAllWith lists dicts xs ys = true)
  | [], ys, ks, hx, fx, fy, hr => by
    cases hx
    cases ys with
    | nil => simp [hashKeys?, eqAllWith]
    | cons y ys =>
      rw [eq_comm, hashKeys?_cons_iff]
      simp [eqAllWith]
  | x :: xs, ys, ks, hx, fx, fy, hr => by
    obtain ⟨k, ks, hk, hks, rfl⟩ := hashKeys?_cons_iff.1 hx
    cases ys with
    | nil => simp [hashKeys?, eqAllWith]
    | cons y ys =>
      obtain ⟨fx, fxs⟩ := List.forall_mem_append.1 fx
      obtain ⟨fy, fys⟩ := List.forall_mem_append.1 fy
      have hy := hashKey?_eq_iff lists dicts x y hk fx fy hr.1
      have hys := hashKeys?_eq_iff lists dicts xs ys hks fxs fys hr.2
      rw [eq_comm, hashKeys?_cons_iff, eqAllWith, Bool.and_eq_true, ← hy, ← hys]
      simp [eq_comm]

end

end Value

/-- Equality to some depth is equality with some way to compare lists and dicts. -/
lemma Heap.exists_eqWithin_eq_eqWith (h : Heap) (k : Nat) :
    ∃ lists dicts, h.eqWithin k = Value.eqWith lists dicts := by
  cases k with
  | zero => exact ⟨_, _, rfl⟩
  | succ k => exact ⟨_, _, rfl⟩

lemma Heap.exists_eq_eqWith (h : Heap) : ∃ lists dicts, h.eq = Value.eqWith lists dicts :=
  h.exists_eqWithin_eq_eqWith h.nesting

/-! ### Keys and equality -/

/-- **Keys agree with equality** on hashable values without floats, as far as the keys of
their ranges do: the keys are the same exactly if the values are equal. So a value stored
under one of them is found under the other exactly if the two are equal. -/
theorem hash_keys_agree_with_equality (h : Heap) {a b : Value} {k l : HashKey}
    (ha : a.hashKey? = .ok k) (hb : b.hashKey? = .ok l) (fa : Value.FloatFree a.leaves)
    (fb : Value.FloatFree b.leaves) (hr : a.RangesTold b) :
    (k = l ↔ h.eq a b = true) ∧
      ∀ (d : Dict) (shown v : Value),
        (d.set k shown v).get? l = if h.eq a b then some v else d.get? l := by
  obtain ⟨lists, dicts, heq⟩ := h.exists_eq_eqWith
  have hkeys : k = l ↔ h.eq a b = true := by
    rw [heq, ← Value.hashKey?_eq_iff lists dicts a b ha fa fb hr, hb, Except.ok.injEq]
  refine ⟨hkeys, fun d shown v => ?_⟩
  by_cases hkl : k = l
  · rw [if_pos (hkeys.1 hkl), ← hkl, Dict.get?_set_self]
  · rw [if_neg (mt hkeys.2 hkl), Dict.get?_set_of_ne d hkl]

/-- A number and a range inside tuples share the key of an equal number and of a range
with other bounds and the same members. -/
theorem hash_keys_agree_of_nested_tuples :
    let a := Value.tuple (.made 0)
      [.int 1, .tuple (.made 1) [.str (.made 2) "x", .range ⟨0, 5, 2, by decide⟩]]
    let b := Value.tuple (.made 3)
      [.bool true, .tuple (.made 4) [.str (.made 5) "x", .range ⟨0, 6, 2, by decide⟩]]
    let k := HashKey.tuple [.int 1, .tuple [.str "x", .range 0 3 2]]
    (a.hashKey? = .ok k ∧ b.hashKey? = .ok k ∧ Value.FloatFree a.leaves ∧
        Value.FloatFree b.leaves ∧ a.RangesTold b) ∧
      Heap.empty.eq a b = true := by
  intro a b k
  have ha : a.hashKey? = .ok k := by rfl
  have hb : b.hashKey? = .ok k := by rfl
  have fa : Value.FloatFree a.leaves := by
    simp [a, Value.FloatFree, Value.leaves, Value.leavesAll, Value.isFloat]
  have fb : Value.FloatFree b.leaves := by
    simp [b, Value.FloatFree, Value.leaves, Value.leavesAll, Value.isFloat]
  have hr : a.RangesTold b := by
    have htold : Range.Told ⟨0, 5, 2, by decide⟩ ⟨0, 6, 2, by decide⟩ := by
      constructor <;> decide
    exact fun _ => ⟨trivial, fun _ => ⟨trivial, htold, trivial⟩, trivial⟩
  exact ⟨⟨ha, hb, fa, fb, hr⟩, (hash_keys_agree_with_equality _ ha hb fa fb hr).1.1 rfl⟩

/-- Keys do not agree with equality on all ranges: one member is the same by any step but
not keyed the same, and ranges too long for a key share one. -/
theorem hash_keys_disagree_on_ranges :
    let one : Range := ⟨0, 1, 1, by decide⟩
    let one' : Range := ⟨0, 1, 2, by decide⟩
    let long : Range := ⟨Int64.minValue, -1, 1, by decide⟩
    let long' : Range := ⟨Int64.minValue, 0, 1, by decide⟩
    (Heap.empty.eq (.range one) (.range one') = true ∧
        (Value.range one).hashKey? ≠ (Value.range one').hashKey?) ∧
      Heap.empty.eq (.range long) (.range long') = false ∧
        (Value.range long).hashKey? = (Value.range long').hashKey? := by
  intro one one' long long'
  refine ⟨⟨by decide, fun h => ?_⟩, by decide, congrArg Except.ok (by decide)⟩
  exact absurd (Except.ok.inj h) (by decide)

end StackVM
