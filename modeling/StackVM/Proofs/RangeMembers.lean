/-
The integers of a range. A range denotes a sequence: the integers from its start on, one step
apart, that lie strictly before its stop. Its size, its items, membership and equality are each
computed by a formula of their own, and all of them are about this sequence.

* `Range.term`, `Range.Before`, `Range.sequence`, `Range.members`: what a range denotes;
* `Range.before_term_iff`: the positions of the sequence are those below the size;
* `Range.encard_members`, `Range.get?_eq`, `Range.contains_iff`, `Range.sameMembers_iff_sequence`:
  size, items, membership and equality;
* `Range.wideSize`, `Range.wideGet`, `Range.wideContains`: the same formulas with every intermediate
  result held by 128 bits;
* `ranges_are_coherent`: **ranges over all of 64 bits**.
-/
import Mathlib
import StackVM.Proofs.Equality
import StackVM.Proofs.HashKeys
import StackVM.Proofs.IntegerArithmetic

namespace StackVM

namespace Range

variable {a b : Range}

/-! ### The sequence of a range -/

/-- The integer so many steps from the start, whether or not it is a member. -/
def term (r : Range) (i : ℕ) : ℤ :=
  r.start.toInt + i * r.step.toInt

/-- The integer lies strictly before the stop, in the direction of the step. -/
def Before (r : Range) (z : ℤ) : Prop :=
  if 0 < r.step.toInt then z < r.stop.toInt else r.stop.toInt < z

instance (r : Range) (z : ℤ) : Decidable (r.Before z) :=
  inferInstanceAs (Decidable (ite _ _ _))

/-- The integers that a range denotes, by their positions. -/
def sequence (r : Range) (i : ℕ) : Option ℤ :=
  if r.Before (r.term i) then some (r.term i) else none

/-- The integers that a range denotes. -/
def members (r : Range) : Set ℤ :=
  {z | ∃ i : ℕ, z = r.term i ∧ r.Before z}

lemma step_toInt_ne_zero (r : Range) : r.step.toInt ≠ 0 := fun h =>
  r.step_ne_zero (Int64.toInt_inj.mp h)

lemma step_pos_or_neg (r : Range) : 0 < r.step.toInt ∨ r.step.toInt < 0 :=
  (lt_or_gt_of_ne r.step_toInt_ne_zero).symm

lemma term_injective (r : Range) : Function.Injective r.term := by
  intro i j h
  have hmul : (i : ℤ) * r.step.toInt = j * r.step.toInt := add_left_cancel h
  exact_mod_cast mul_right_cancel₀ r.step_toInt_ne_zero hmul

lemma start_le_term {r : Range} (h : 0 < r.step.toInt) (i : ℕ) : r.start.toInt ≤ r.term i :=
  le_add_of_nonneg_right (mul_nonneg (Int.natCast_nonneg i) h.le)

lemma term_le_start {r : Range} (h : r.step.toInt < 0) (i : ℕ) : r.term i ≤ r.start.toInt :=
  add_le_of_nonpos_right (mul_nonpos_of_nonneg_of_nonpos (Int.natCast_nonneg i) h.le)

/-- The size of a range that goes up. -/
lemma size_of_pos {r : Range} (h : 0 < r.step.toInt) :
    r.size = if r.start.toInt < r.stop.toInt then
      ((r.stop.toInt - r.start.toInt - 1) / r.step.toInt + 1).toNat else 0 := by
  have hneg : ¬ r.step.toInt < 0 := by omega
  simp [size, h, hneg]

/-- The size of a range that goes down. -/
lemma size_of_neg {r : Range} (h : r.step.toInt < 0) :
    r.size = if r.stop.toInt < r.start.toInt then
      ((r.start.toInt - r.stop.toInt - 1) / -r.step.toInt + 1).toNat else 0 := by
  have hpos : ¬ 0 < r.step.toInt := by omega
  simp [size, h, hpos]

/-- So many steps fit into a distance. -/
lemma lt_steps_iff {distance step : ℤ} (hstep : 0 < step) (hdistance : 0 < distance) (i : ℕ) :
    i < ((distance - 1) / step + 1).toNat ↔ i * step < distance := by
  have hquotient : 0 ≤ (distance - 1) / step := Int.ediv_nonneg (by omega) hstep.le
  have hle : (i : ℤ) ≤ (distance - 1) / step ↔ i * step ≤ distance - 1 :=
    Int.le_ediv_iff_mul_le hstep
  omega

/-- **The positions of the sequence** are those below the size. -/
lemma before_term_iff (r : Range) (i : ℕ) : r.Before (r.term i) ↔ i < r.size := by
  rcases r.step_pos_or_neg with hstep | hstep
  · have hterm := start_le_term hstep i
    rw [Before, if_pos hstep, size_of_pos hstep]
    split
    next hstart =>
      rw [lt_steps_iff hstep (sub_pos.mpr hstart), term]
      omega
    next => omega
  · have hterm := term_le_start hstep i
    rw [Before, if_neg (by omega), size_of_neg hstep]
    split
    next hstart =>
      rw [lt_steps_iff (neg_pos.mpr hstep) (sub_pos.mpr hstart), term, mul_neg]
      omega
    next => omega

lemma sequence_eq (r : Range) (i : ℕ) :
    r.sequence i = if i < r.size then some (r.term i) else none := by
  rw [sequence, if_congr (r.before_term_iff i) rfl rfl]

/-- A range has as many members as its size says. -/
lemma encard_members (r : Range) : r.members.encard = r.size := by
  have hmembers :
      r.members = ((Finset.range r.size).map ⟨r.term, r.term_injective⟩ : Finset ℤ) := by
    ext z
    simp only [members, Set.mem_ofPred_eq, Finset.coe_map, Function.Embedding.coeFn_mk,
      Set.mem_image, Finset.coe_range, Set.mem_Iio]
    constructor
    · rintro ⟨i, rfl, hbefore⟩
      exact ⟨i, (r.before_term_iff i).mp hbefore, rfl⟩
    · rintro ⟨i, hi, rfl⟩
      exact ⟨i, rfl, (r.before_term_iff i).mpr hi⟩
  rw [hmembers, Set.encard_coe_eq_coe_finsetCard, Finset.card_map, Finset.card_range]

/-! ### Items -/

/-- Members are between the two bounds. -/
lemma fitsWord_term {r : Range} {i : ℕ} (hi : i < r.size) : FitsWord (r.term i) := by
  have hbefore := (r.before_term_iff i).mpr hi
  obtain ⟨hstart, hstart'⟩ := fitsWord_toInt r.start
  obtain ⟨hstop, hstop'⟩ := fitsWord_toInt r.stop
  rw [Before] at hbefore
  rcases r.step_pos_or_neg with hstep | hstep
  · rw [if_pos hstep] at hbefore
    exact ⟨hstart.trans (start_le_term hstep i), hbefore.trans hstop'⟩
  · rw [if_neg (by omega)] at hbefore
    exact ⟨hstop.trans hbefore.le, (term_le_start hstep i).trans_lt hstart'⟩

/-- The item at a position is the member there. -/
lemma toInt_nth {r : Range} {i : ℕ} (hi : i < r.size) : (r.nth i).toInt = r.term i :=
  Int64.toInt_ofInt_of_le (fitsWord_term hi).1 (fitsWord_term hi).2

lemma toInt_nth? (r : Range) (i : ℕ) :
    (r.nth? i).map Int64.toInt = if i < r.size then some (r.term i) else none := by
  rw [nth?]
  split
  next hi => rw [Option.map_some, toInt_nth hi]
  next => rfl

/-- **The item at an index**, which counts from the end if it is negative. -/
lemma get?_eq (r : Range) (index : Int64) :
    (r.get? index).map Int64.toInt =
      if 0 ≤ index.toInt ∧ index.toInt < r.size then
        some (r.start.toInt + index.toInt * r.step.toInt)
      else if -(r.size : ℤ) ≤ index.toInt ∧ index.toInt < 0 then
        some (r.start.toInt + (r.size + index.toInt) * r.step.toInt)
      else none := by
  have hterm : ∀ i : ℤ, 0 ≤ i → r.term i.toNat = r.start.toInt + i * r.step.toInt := by
    intro i hi
    rw [term, Int.toNat_of_nonneg hi]
  rw [get?]
  by_cases hneg : index.toInt < 0
  · have hindex : ¬ (0 ≤ index.toInt ∧ index.toInt < r.size) := by omega
    simp only [hneg, if_true, hindex, if_false, and_true]
    by_cases hfits : 0 ≤ index.toInt + r.size
    · rw [if_pos hfits, toInt_nth?, if_pos (by omega), if_pos (by omega), hterm _ hfits,
        add_comm index.toInt]
    · rw [if_neg hfits, if_neg (by omega)]
      rfl
  · simp only [hneg, if_false, and_false]
    rw [if_pos (by omega), toInt_nth?, hterm _ (by omega)]
    exact if_congr (by omega) rfl rfl

/-! ### Membership -/

/-- An integer that is some steps away from the start is a member if it is between the bounds. -/
lemma exists_term_iff (r : Range) (z : ℤ) :
    (∃ i < r.size, z = r.term i) ↔
      (if 0 < r.step.toInt then r.start.toInt ≤ z else z ≤ r.start.toInt) ∧ r.Before z ∧
        r.step.toInt ∣ z - r.start.toInt := by
  constructor
  · rintro ⟨i, hi, rfl⟩
    refine ⟨?_, (r.before_term_iff i).mpr hi, ?_⟩
    · rcases r.step_pos_or_neg with hstep | hstep
      · rw [if_pos hstep]
        exact start_le_term hstep i
      · rw [if_neg (by omega)]
        exact term_le_start hstep i
    · exact ⟨i, by rw [term]; ring⟩
  · rintro ⟨hstart, hbefore, k, hk⟩
    -- the number of steps is not negative, since the integer is not before the start
    have hnonneg : 0 ≤ k := by
      rcases r.step_pos_or_neg with hstep | hstep
      · rw [if_pos hstep] at hstart
        exact nonneg_of_mul_nonneg_right (by omega) hstep
      · rw [if_neg (by omega)] at hstart
        have hneg : 0 ≤ -r.step.toInt * k := by
          rw [neg_mul]
          omega
        exact nonneg_of_mul_nonneg_right hneg (by omega)
    have hterm : z = r.term k.toNat := by
      rw [term, Int.toNat_of_nonneg hnonneg, mul_comm]
      omega
    exact ⟨k.toNat, (r.before_term_iff _).mp (hterm ▸ hbefore), hterm⟩

/-- **Membership** is decided without listing the members. -/
lemma contains_iff (r : Range) (v : Int64) :
    r.contains v = true ↔ ∃ i < r.size, v.toInt = r.term i := by
  rw [exists_term_iff, contains, Before, Int.dvd_iff_emod_eq_zero]
  split
  next => simp [Int64.le_iff_toInt_le, Int64.lt_iff_toInt_lt, and_assoc]
  next => simp [Int64.le_iff_toInt_le, Int64.lt_iff_toInt_lt, and_assoc]

/-! ### Equality -/

/-- **Ranges have the same members** if they denote the same sequence. -/
lemma sameMembers_iff_sequence : a.sameMembers b = true ↔ a.sequence = b.sequence := by
  rw [sameMembers_iff]
  constructor
  · rintro ⟨hsize, hsame⟩
    funext i
    rw [sequence_eq, sequence_eq, hsize]
    by_cases hi : i < b.size
    · rw [if_pos hi, if_pos hi]
      rcases hsame with hempty | ⟨hstart, hone | hstep⟩
      · omega
      · obtain rfl : i = 0 := by omega
        rw [term, term, hstart]
        simp
      · rw [term, term, hstart, hstep]
    · rw [if_neg hi, if_neg hi]
  · intro h
    have hterm : ∀ i, (if i < a.size then some (a.term i) else none) =
        if i < b.size then some (b.term i) else none := by
      intro i
      rw [← sequence_eq, ← sequence_eq, h]
    have hlt : ∀ i, i < a.size ↔ i < b.size := by
      intro i
      have := hterm i
      constructor <;> intro hi <;> by_contra hn <;> simp [hi, hn] at this
    have hsize : a.size = b.size :=
      Nat.le_antisymm (Nat.le_of_not_lt fun hn => Nat.lt_irrefl _ ((hlt _).mp hn))
        (Nat.le_of_not_lt fun hn => Nat.lt_irrefl _ ((hlt _).mpr hn))
    refine ⟨hsize, ?_⟩
    rcases Nat.eq_zero_or_pos a.size with hempty | hpos
    · exact .inl hempty
    · have hstart : a.start.toInt = b.start.toInt := by
        have := hterm 0
        simpa [hpos, hsize ▸ hpos, term] using this
      refine .inr ⟨Int64.toInt_inj.mp hstart, ?_⟩
      rcases Nat.lt_or_ge 1 a.size with htwo | hone
      · have := hterm 1
        refine .inr (Int64.toInt_inj.mp ?_)
        simpa [htwo, hsize ▸ htwo, term, hstart] using this
      · exact .inl (by omega)

/-! ### Width -/

/-- A result in 128 bits. -/
def wide (z : ℤ) : Option ℤ :=
  if -0x80000000000000000000000000000000 ≤ z ∧ z < 0x80000000000000000000000000000000 then some z
  else none

/-- The number of steps that fit into a distance, as it is computed in 128 bits. -/
def wideSteps (distance step : ℤ) : Option ℤ := do
  let last ← wide (distance - 1)
  wide ((← wide (last.tdiv step)) + 1)

/-- The number of members, as it is computed in 128 bits. -/
def wideCount (r : Range) : Option ℤ :=
  let start := r.start.toInt
  let stop := r.stop.toInt
  let step := r.step.toInt
  if 0 < step ∧ start < stop then do wideSteps (← wide (stop - start)) step
  else if step < 0 ∧ stop < start then do wideSteps (← wide (start - stop)) (← wide (-step))
  else some 0

/-- The size, as it is computed in 128 bits and kept in 64; nothing if a result overflows. -/
def wideSize (r : Range) : Option ℕ := do
  let count ← r.wideCount
  if 0 ≤ count ∧ count < 0x10000000000000000 then some count.toNat else none

/-- The item at a position, as it is computed in 128 bits and kept in 64. -/
def wideNth (r : Range) (size i : ℤ) : Option (Option Int64) :=
  if 0 ≤ i ∧ i < size then do
    let z ← wide (r.start.toInt + (← wide (i * r.step.toInt)))
    if FitsWord z then some (some (Int64.ofInt z)) else none
  else
    some none

/-- The position of an index, as it is computed in 128 bits. -/
def widePosition (index : Int64) (size : ℤ) : Option ℤ :=
  if index.toInt < 0 then wide (index.toInt + size) else some index.toInt

/-- The item at an index, as it is computed in 128 bits and kept in 64; nothing if a result
overflows. -/
def wideGet (r : Range) (index : Int64) : Option (Option Int64) := do
  let size ← wide (← r.wideSize)
  r.wideNth size (← widePosition index size)

/-- Membership, as it is computed in 128 bits; nothing if a result overflows. -/
def wideContains (r : Range) (v : Int64) : Option Bool := do
  let offset ← wide (v.toInt - r.start.toInt)
  let rest ← wide (offset.tmod r.step.toInt)
  let inBounds :=
    if 0 < r.step.toInt then r.start ≤ v && v < r.stop else v ≤ r.start && r.stop < v
  return inBounds && rest == 0

lemma wide_of_lt {z : ℤ} (h : -0x80000000000000000000000000000000 ≤ z)
    (h' : z < 0x80000000000000000000000000000000) : wide z = some z :=
  if_pos ⟨h, h'⟩

lemma wideSteps_eq {distance step : ℤ} (hstep : 0 < step) (hpos : 0 < distance)
    (hlt : distance < 0x10000000000000000) :
    wideSteps distance step = some (((distance - 1) / step + 1).toNat : ℤ) ∧
      (((distance - 1) / step + 1).toNat : ℤ) < 0x10000000000000000 := by
  have hnonneg : 0 ≤ (distance - 1) / step := Int.ediv_nonneg (by omega) hstep.le
  have hle : (distance - 1) / step ≤ distance - 1 := Int.ediv_le_self _ (by omega)
  rw [Int.toNat_of_nonneg (by omega)]
  refine ⟨?_, by omega⟩
  simp only [wideSteps, Option.bind_eq_bind, wide_of_lt (z := distance - 1) (by omega) (by omega),
    Option.bind_some, Int.tdiv_eq_ediv_of_nonneg (a := distance - 1) (by omega),
    wide_of_lt (z := (distance - 1) / step) (by omega) (by omega),
    wide_of_lt (z := (distance - 1) / step + 1) (by omega) (by omega)]

lemma wideCount_eq (r : Range) :
    r.wideCount = some (r.size : ℤ) ∧ (r.size : ℤ) < 0x10000000000000000 := by
  obtain ⟨hstart, hstart'⟩ := fitsWord_toInt r.start
  obtain ⟨hstop, hstop'⟩ := fitsWord_toInt r.stop
  obtain ⟨hlow, hhigh⟩ := fitsWord_toInt r.step
  rcases r.step_pos_or_neg with hstep | hstep
  · have hneg : ¬ r.step.toInt < 0 := by omega
    rw [size_of_pos hstep]
    by_cases hbounds : r.start.toInt < r.stop.toInt
    · have hspan := wide_of_lt (z := r.stop.toInt - r.start.toInt) (by omega) (by omega)
      rw [if_pos hbounds]
      simp only [wideCount, hstep, hbounds, and_self, if_true, Option.bind_eq_bind, hspan,
        Option.bind_some]
      exact wideSteps_eq hstep (sub_pos.mpr hbounds) (by omega)
    · simp [wideCount, hneg, hbounds]
  · have hpos : ¬ 0 < r.step.toInt := by omega
    rw [size_of_neg hstep]
    by_cases hbounds : r.stop.toInt < r.start.toInt
    · have hspan := wide_of_lt (z := r.start.toInt - r.stop.toInt) (by omega) (by omega)
      have hback := wide_of_lt (z := -r.step.toInt) (by omega) (by omega)
      rw [if_pos hbounds]
      simp only [wideCount, hstep, hpos, hbounds, and_self, false_and, if_false, if_true,
        Option.bind_eq_bind, hspan, hback, Option.bind_some]
      exact wideSteps_eq (neg_pos.mpr hstep) (sub_pos.mpr hbounds) (by omega)
    · simp [wideCount, hpos, hbounds]

/-- **The size does not overflow.** -/
lemma wideSize_eq (r : Range) : r.wideSize = some r.size := by
  obtain ⟨hcount, hlt⟩ := r.wideCount_eq
  rw [wideSize, hcount, Option.bind_eq_bind, Option.bind_some, if_pos ⟨by omega, hlt⟩,
    Int.toNat_natCast]

lemma wideNth_eq (r : Range) (i : ℤ) :
    r.wideNth r.size i = some (if 0 ≤ i then r.nth? i.toNat else none) := by
  obtain ⟨hstart, hstart'⟩ := fitsWord_toInt r.start
  rw [wideNth, nth?]
  by_cases hi : 0 ≤ i ∧ i < (r.size : ℤ)
  · -- the distance is that of a member from the start
    have hlt : i.toNat < r.size := by omega
    have hterm : r.start.toInt + i * r.step.toInt = r.term i.toNat := by
      rw [term, Int.toNat_of_nonneg hi.1]
    have hfits := fitsWord_term hlt
    have hlow := hfits.1
    have hhigh := hfits.2
    have hdistance := wide_of_lt (z := i * r.step.toInt) (by omega) (by omega)
    have hwide := wide_of_lt (z := r.term i.toNat) (by omega) (by omega)
    rw [if_pos hi, if_pos hi.1, if_pos hlt, hdistance, Option.bind_eq_bind, Option.bind_some, hterm,
      hwide, Option.bind_some, if_pos hfits]
    rfl
  · rw [if_neg hi]
    split
    next hnonneg => rw [if_neg (by omega)]
    next => rfl

/-- **The item at an index does not overflow.** -/
lemma wideGet_eq (r : Range) (index : Int64) : r.wideGet index = some (r.get? index) := by
  have hlt := r.wideCount_eq.2
  obtain ⟨hlow, hhigh⟩ := fitsWord_toInt index
  have hsize := wide_of_lt (z := r.size) (by omega) (by omega)
  have hposition : widePosition index r.size =
      some (if index.toInt < 0 then index.toInt + r.size else index.toInt) := by
    rw [widePosition]
    split
    next => exact wide_of_lt (by omega) (by omega)
    next => rfl
  rw [wideGet, wideSize_eq, Option.bind_eq_bind, Option.bind_some, hsize, Option.bind_eq_bind,
    Option.bind_some, hposition, Option.bind_some, wideNth_eq, get?]

/-- **Membership does not overflow.** -/
lemma wideContains_eq (r : Range) (v : Int64) : r.wideContains v = some (r.contains v) := by
  obtain ⟨hlow, hhigh⟩ := fitsWord_toInt v
  obtain ⟨hstart, hstart'⟩ := fitsWord_toInt r.start
  have hoffset : wide (v.toInt - r.start.toInt) = some (v.toInt - r.start.toInt) :=
    wide_of_lt (by omega) (by omega)
  have hle : ((v.toInt - r.start.toInt).tmod r.step.toInt).natAbs ≤
      (v.toInt - r.start.toInt).natAbs := by
    rw [Int.natAbs_tmod]
    exact Nat.mod_le _ _
  have hrest : wide ((v.toInt - r.start.toInt).tmod r.step.toInt) =
      some ((v.toInt - r.start.toInt).tmod r.step.toInt) :=
    wide_of_lt (by omega) (by omega)
  have hzero : (v.toInt - r.start.toInt).tmod r.step.toInt = 0 ↔
      (v.toInt - r.start.toInt) % r.step.toInt = 0 := by
    rw [← Int.dvd_iff_tmod_eq_zero, Int.dvd_iff_emod_eq_zero]
  simp only [wideContains, Option.bind_eq_bind, hoffset, Option.bind_some, hrest, contains]
  congr 2
  rw [Bool.eq_iff_iff, beq_iff_eq, beq_iff_eq, hzero]

end Range

/-- **Ranges over all of 64 bits.** Whatever the bounds and the step of a range are, its size is
the number of integers that it denotes. The item at an index is the integer at that position, from
the end if the index is negative, and there is none at any other index. Exactly the integers that it
denotes are in it, and two ranges are equal exactly if they denote the same sequence. None of this
leaves 128 bits on the way, or 64 bits in the end. -/
theorem ranges_are_coherent (r : Range) :
    (r.members.encard = r.size ∧ ∀ i : ℕ, r.Before (r.term i) ↔ i < r.size) ∧
    (∀ index : Int64,
      (r.get? index).map Int64.toInt =
        if 0 ≤ index.toInt ∧ index.toInt < r.size then
          some (r.start.toInt + index.toInt * r.step.toInt)
        else if -(r.size : ℤ) ≤ index.toInt ∧ index.toInt < 0 then
          some (r.start.toInt + (r.size + index.toInt) * r.step.toInt)
        else none) ∧
    (∀ v : Int64, r.contains v = true ↔
      ∃ i < r.size, v.toInt = r.start.toInt + i * r.step.toInt) ∧
    (∀ (h : Heap) (s : Range),
      h.eq (.range r) (.range s) = true ↔ r.sequence = s.sequence) ∧
    r.wideSize = some r.size ∧ (∀ index, r.wideGet index = some (r.get? index)) ∧
      ∀ v, r.wideContains v = some (r.contains v) := by
  refine ⟨⟨r.encard_members, r.before_term_iff⟩, r.get?_eq, r.contains_iff, ?_, r.wideSize_eq,
    r.wideGet_eq, r.wideContains_eq⟩
  intro h s
  rw [Heap.eq_range_iff, ← Range.sameMembers_iff_sequence]
  simp

end StackVM
