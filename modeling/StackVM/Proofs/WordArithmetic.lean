/-
Words and the integers for which they stand. An operation on words gives the word of the integer
that the same operation gives on these, or nothing if there is none. What needs an argument is that
nothing is refused on the way to a result that is a word.

* `FitsWord`: an integer that 64 bits hold; `Word.ofInt?_of_fits`: the word for it;
* `testBit_toInt`, `eq_of_testBit_eq`: integers and their bits;
* `Word.mulPow?_eq`, `Word.pow?_eq`: **repeated squaring refuses no power that is a word**;
* `Word.toInt_shiftLeft`, `Word.toInt_shiftRight`: shifts;
* `WordDivision.RoundsDown`: what is asked of division and parity;
  `WordDivision.RoundsDown.toInt_divFloor`, `WordDivision.RoundsDown.toInt_modFloor`: what follows.
-/
import Mathlib
import StackVM.Word

namespace StackVM

/-! ### Words -/

/-- An integer that 64 bits hold. -/
def FitsWord (z : ℤ) : Prop :=
  -2 ^ 63 ≤ z ∧ z < 2 ^ 63

instance (z : ℤ) : Decidable (FitsWord z) :=
  inferInstanceAs (Decidable (_ ∧ _))

lemma fitsWord_toInt (a : Int64) : FitsWord a.toInt :=
  ⟨a.le_toInt, a.toInt_lt⟩

namespace Word

/-- An integer that 64 bits hold has a word. -/
lemma ofInt?_of_fits {z : ℤ} (hz : FitsWord z) : ∃ i, ofInt? z = some i ∧ i.toInt = z := by
  refine ⟨Int64.ofInt z, ?_, Int64.toInt_ofInt_of_le hz.1 hz.2⟩
  rw [ofInt?, if_pos]
  exact hz

lemma ofInt?_of_not_fits {z : ℤ} (hz : ¬ FitsWord z) : ofInt? z = none := by
  rw [ofInt?, if_neg]
  exact hz

lemma ofInt?_toInt (a : Int64) : ofInt? a.toInt = some a := by
  obtain ⟨i, hi, heq⟩ := ofInt?_of_fits (fitsWord_toInt a)
  rw [hi, Int64.toInt_inj.mp heq]

end Word

/-! ### Bits -/

section Bits

/-- The bits of a signed number are those of its word, and its sign above them. -/
lemma testBit_toInt {w : ℕ} (x : BitVec w) (i : ℕ) :
    x.toInt.testBit i = if i < w then x.getLsbD i else x.msb := by
  have hbelow : i < w ∨ x.getLsbD i = false := by
    by_cases hi : i < w
    · exact .inl hi
    · exact .inr (x.getLsbD_of_ge i (by omega))
  rw [BitVec.toInt_eq_msb_cond]
  cases hmsb : x.msb with
  | false =>
      have hbit : (x.toNat : ℤ).testBit i = x.getLsbD i := x.testBit_toNat
      rcases hbelow with hi | hi <;> simp [hbit, hi]
  | true =>
      have hneg : (x.toNat : ℤ) - ((2 ^ w : ℕ) : ℤ) = Int.negSucc (~~~x).toNat := by
        have hlt := x.isLt
        rw [BitVec.toNat_not, Int.negSucc_eq]
        omega
      have hbit : (Int.negSucc (~~~x).toNat).testBit i = !(~~~x).getLsbD i :=
        congrArg (!·) (BitVec.testBit_toNat _)
      rw [if_pos rfl, hneg, hbit, BitVec.getLsbD_not]
      by_cases hi : i < w <;> simp [hi]

/-- Above the bits of its magnitude an integer shows its sign. -/
lemma exists_testBit_eq_sign (x y : ℤ) :
    ∃ i, x.testBit i = decide (x < 0) ∧ y.testBit i = decide (y < 0) := by
  have hsign : ∀ z : ℤ, ∀ i, z.natAbs ≤ i → z.testBit i = decide (z < 0) := by
    intro z i hi
    have hlt : z.natAbs < 2 ^ i := Nat.lt_of_le_of_lt hi Nat.lt_two_pow_self
    cases z with
    | ofNat m =>
        have hbit : m.testBit i = false := Nat.testBit_lt_two_pow hlt
        have hpos : ¬ Int.ofNat m < 0 := by simp
        rw [decide_eq_false hpos]
        exact hbit
    | negSucc m =>
        have hbit : m.testBit i = false := Nat.testBit_lt_two_pow (Nat.lt_of_succ_lt hlt)
        simp [Int.testBit, hbit, Int.negSucc_lt_zero]
  exact ⟨max x.natAbs y.natAbs, hsign x _ (le_max_left _ _), hsign y _ (le_max_right _ _)⟩

/-- Integers with the same bits are the same. -/
lemma eq_of_testBit_eq {x y : ℤ} (h : ∀ i, x.testBit i = y.testBit i) : x = y := by
  obtain ⟨i, hx, hy⟩ := exists_testBit_eq_sign x y
  have hsign : x < 0 ↔ y < 0 := by simpa [hx, hy] using h i
  cases x with
  | ofNat m =>
      cases y with
      | ofNat n => exact congrArg _ (Nat.eq_of_testBit_eq h)
      | negSucc n => exact absurd (hsign.mpr (Int.negSucc_lt_zero n)) (by simp)
  | negSucc m =>
      cases y with
      | ofNat n => exact absurd (hsign.mp (Int.negSucc_lt_zero m)) (by simp)
      | negSucc n =>
          refine congrArg _ (Nat.eq_of_testBit_eq fun i => ?_)
          simpa [Int.testBit] using h i

/-- An operation bit by bit on words is the same operation on the integers they stand for. -/
lemma toInt_eq_of_bits {a b c : Int64} {z : ℤ} (f : Bool → Bool → Bool)
    (hbits : ∀ i < 64, c.toBitVec.getLsbD i = f (a.toBitVec.getLsbD i) (b.toBitVec.getLsbD i))
    (hz : ∀ i, z.testBit i = f (a.toInt.testBit i) (b.toInt.testBit i)) : c.toInt = z := by
  apply eq_of_testBit_eq
  intro i
  rw [hz, ← Int64.toInt_toBitVec, ← Int64.toInt_toBitVec, ← Int64.toInt_toBitVec]
  simp only [testBit_toInt]
  split
  next hi => exact hbits i hi
  next => simpa only [BitVec.msb_eq_getLsbD_last] using hbits 63 (by decide)

lemma toInt_and (a b : Int64) : (a &&& b).toInt = a.toInt.land b.toInt :=
  toInt_eq_of_bits (· && ·) (fun _ _ => by simp) (Int.testBit_land _ _)

lemma toInt_or (a b : Int64) : (a ||| b).toInt = a.toInt.lor b.toInt :=
  toInt_eq_of_bits (· || ·) (fun _ _ => by simp) (Int.testBit_lor _ _)

lemma toInt_xor (a b : Int64) : (a ^^^ b).toInt = a.toInt.xor b.toInt :=
  toInt_eq_of_bits (· ^^ ·) (fun _ _ => by simp) (Int.testBit_lxor _ _)

lemma toInt_not (a : Int64) : (~~~a).toInt = a.toInt.lnot :=
  toInt_eq_of_bits (b := 0) (fun x _ => !x) (fun i hi => by simp [hi]) (Int.testBit_lnot _)

end Bits

/-! ### Powers -/

/-- A magnitude of 64 bits or more is too great. -/
lemma not_fitsWord_of_le_natAbs {z : ℤ} (hz : 2 ^ 64 ≤ z.natAbs) : ¬ FitsWord z := by
  rintro ⟨hlow, hhigh⟩
  omega

/-- A positive factor does not make a word of what is none. -/
lemma not_fitsWord_mul_of_pos {z k : ℤ} (hz : ¬ FitsWord z) (hk : 0 < k) : ¬ FitsWord (z * k) := by
  rintro ⟨hlow, hhigh⟩
  apply hz
  constructor
  · by_contra hlt
    nlinarith
  · by_contra hge
    nlinarith

/-- A square that is no word is beyond `2 ^ 63`, which is no square. -/
lemma lt_mul_self_of_not_fits {z : ℤ} (hz : ¬ FitsWord (z * z)) : 2 ^ 63 < z * z := by
  rw [← Int.natAbs_mul_self] at hz ⊢
  generalize z.natAbs = m at hz ⊢
  rcases Nat.lt_or_ge 3037000499 m with hgreat | hsmall
  · have hsquare : 3037000500 * 3037000500 ≤ m * m := Nat.mul_le_mul hgreat hgreat
    omega
  · have hsquare : m * m ≤ 3037000499 * 3037000499 := Nat.mul_le_mul hsmall hsmall
    exact absurd ⟨by omega, by omega⟩ hz

/-- A multiple of what is beyond `2 ^ 63` is no word. -/
lemma not_fitsWord_mul_of_lt {z k : ℤ} (hz : 2 ^ 63 < z) (hk : k ≠ 0) : ¬ FitsWord (k * z) := by
  rintro ⟨hlow, hhigh⟩
  rcases lt_or_gt_of_ne hk with hneg | hpos
  · nlinarith
  · nlinarith

/-- A power is a factor for the lowest bit of the exponent, and a power of the square. -/
lemma mul_pow_eq_mul_square_pow (x y : ℤ) (n : ℕ) :
    x * y ^ n = x * y ^ (n % 2) * (y * y) ^ (n / 2) := by
  rw [← pow_two, ← pow_mul, mul_assoc, ← pow_add, Nat.mod_add_div]

/-- If the factor for the lowest bit makes a word into what is none, then so does the power. -/
lemma not_fitsWord_of_low {x y : ℤ} {n : ℕ} (hx : FitsWord x)
    (hlow : ¬ FitsWord (x * y ^ (n % 2))) : ¬ FitsWord (x * y ^ n) := by
  have hy : y ≠ 0 := by
    rintro rfl
    apply hlow
    rcases Nat.mod_two_eq_zero_or_one n with heven | hodd
    · rwa [heven, pow_zero, mul_one]
    · rw [hodd, pow_one, mul_zero]
      decide
  rw [mul_pow_eq_mul_square_pow]
  exact not_fitsWord_mul_of_pos hlow (pow_pos (mul_self_pos.mpr hy) _)

/-- If the square is no word, then neither is a power of which it is a factor. -/
lemma not_fitsWord_of_square {x y : ℤ} {n : ℕ} (hn : 2 ≤ n) (hx : x * y ^ (n % 2) ≠ 0)
    (hsquare : ¬ FitsWord (y * y)) : ¬ FitsWord (x * y ^ n) := by
  have hgreat := lt_mul_self_of_not_fits hsquare
  have hle : y * y ≤ (y * y) ^ (n / 2) := le_self_pow₀ (by omega) (by omega)
  rw [mul_pow_eq_mul_square_pow]
  exact not_fitsWord_mul_of_lt (hgreat.trans_le hle) hx

namespace Word

/-- The factor for the lowest bit of the exponent. -/
lemma mul?_low (acc base : Int64) (n : ℕ) :
    (if n % 2 = 1 then mul? acc base else some acc) =
      ofInt? (acc.toInt * base.toInt ^ (n % 2)) := by
  rcases Nat.mod_two_eq_zero_or_one n with heven | hodd
  · rw [heven, if_neg (by decide), pow_zero, mul_one, ofInt?_toInt]
  · rw [hodd, if_pos rfl, pow_one, mul?]

/-- **Repeated squaring** refuses a product on the way only if the power is refused too: a square
is made only while it has a use, and no factor that is not zero takes its bits back. -/
lemma mulPow?_eq (acc base : Int64) (n : ℕ) (hacc : base.toInt ≠ 0 → acc.toInt ≠ 0) :
    mulPow? acc base n = ofInt? (acc.toInt * base.toInt ^ n) := by
  induction n using Nat.strong_induction_on generalizing acc base with
  | _ n ih =>
      rw [mulPow?, mul?_low]
      by_cases hlow : FitsWord (acc.toInt * base.toInt ^ (n % 2))
      · obtain ⟨acc', hofInt, hacc'⟩ := ofInt?_of_fits hlow
        by_cases hlast : n ≤ 1
        · -- the lowest bit is the whole exponent
          rw [Nat.mod_eq_of_lt (by omega)]
          simp [hlast]
        have hne : base.toInt ≠ 0 → acc'.toInt ≠ 0 := by
          intro hbase
          rw [hacc']
          exact mul_ne_zero (hacc hbase) (pow_ne_zero _ hbase)
        rw [hofInt, Option.bind_eq_bind, Option.bind_some, if_neg hlast, mul?]
        by_cases hsquare : FitsWord (base.toInt * base.toInt)
        · obtain ⟨base', hofInt', hbase'⟩ := ofInt?_of_fits hsquare
          have hne' : base'.toInt ≠ 0 → acc'.toInt ≠ 0 := by
            rw [hbase']
            exact fun hsquare => hne (left_ne_zero_of_mul hsquare)
          rw [hofInt', Option.bind_some, ih (n / 2) (by omega) acc' base' hne',
            hacc', hbase', ← mul_pow_eq_mul_square_pow]
        · have hbase : base.toInt ≠ 0 := by
            intro hzero
            rw [hzero] at hsquare
            exact hsquare (by decide)
          rw [ofInt?_of_not_fits hsquare, ofInt?_of_not_fits
            (not_fitsWord_of_square (by omega) (hacc' ▸ hne hbase) hsquare)]
          rfl
      · rw [ofInt?_of_not_fits hlow,
          ofInt?_of_not_fits (not_fitsWord_of_low (fitsWord_toInt acc) hlow)]
        rfl

/-- **A power of a word** is given exactly if it is a word. -/
lemma pow?_eq (a : Int64) (n : ℕ) : pow? a n = ofInt? (a.toInt ^ n) := by
  rw [pow?, mulPow?_eq 1 a n fun _ => by decide]
  simp

/-! ### Shifts -/

/-- A number of places that 32 bits hold is kept. -/
lemma toNat32?_of_lt {b : Int64} (hb : 0 ≤ b.toInt) (hlt : b.toInt < 2 ^ 32) :
    toNat32? b = some b.toInt.toNat := by
  rw [toNat32?, if_pos]
  exact ⟨hb, hlt⟩

lemma toNat32?_of_le {b : Int64} (hle : 2 ^ 32 ≤ b.toInt) : toNat32? b = none := by
  rw [toNat32?, if_neg]
  omega

/-- Keeping the number of places in 32 bits matters only beyond all the bits of a word. -/
lemma shiftCount_eq {b : Int64} (hb : 0 ≤ b.toInt) :
    shiftCount b = b.toInt.toNat ∨ 64 ≤ shiftCount b ∧ 64 ≤ b.toInt := by
  rw [shiftCount]
  rcases lt_or_ge b.toInt (2 ^ 32) with hlt | hle
  · exact .inl (by rw [toNat32?_of_lt hb hlt, Option.getD_some])
  · rw [toNat32?_of_le hle]
    exact .inr ⟨by decide, by omega⟩

/-- In 128 bits no bit is lost to a shift by less than 64 places. -/
lemma toInt_shiftLeft (a : Int64) {n : ℕ} (hn : n < 64) :
    (shiftLeft a n).toInt = a.toInt * 2 ^ n := by
  have hlow := a.le_toInt
  have hhigh := a.toInt_lt
  have hpow : (2 : ℤ) ^ n ≤ 2 ^ 63 := pow_le_pow_right₀ (by norm_num) (by omega)
  have hpos : (0 : ℤ) < 2 ^ n := by positivity
  have hextended : (a.toBitVec.signExtend 128).toInt = a.toInt :=
    (BitVec.toInt_signExtend_of_le (by decide)).trans a.toInt_toBitVec
  rw [shiftLeft, BitVec.shiftLeft_eq_mul_twoPow, BitVec.toInt_mul, hextended, BitVec.toInt_twoPow,
    if_neg (by omega), if_neg (by omega)]
  exact Int.bmod_eq_of_le (by norm_num; nlinarith) (by norm_num; nlinarith)

lemma toInt_shiftRight (a : Int64) (n : ℕ) : (shiftRight a n).toInt = a.toInt >>> n := by
  rw [shiftRight, Int64.toInt_ofBitVec, BitVec.toInt_sshiftRight, Int64.toInt_toBitVec]

end Word

/-! ### Division -/

/-- The divisions of words that have a quotient: there is none by zero, and that of the least word
by minus one is no word. -/
def Word.Divides (a b : Int64) : Prop :=
  b ≠ 0 ∧ ¬ (a = Int64.minValue ∧ b = -1)

/-- **What is asked of division and parity**: where words have a quotient, it is the integer next
below the exact one, and the remainder is one with the sign of the divisor. -/
structure WordDivision.RoundsDown [WordDivision] : Prop where
  quotient_of_pos : ∀ {a b : Int64}, Word.Divides a b → 0 < b.toInt →
    (divFloor a b).toInt * b.toInt ≤ a.toInt ∧ a.toInt < ((divFloor a b).toInt + 1) * b.toInt
  quotient_of_neg : ∀ {a b : Int64}, Word.Divides a b → b.toInt < 0 →
    a.toInt ≤ (divFloor a b).toInt * b.toInt ∧ ((divFloor a b).toInt + 1) * b.toInt < a.toInt
  dvd_sub_remainder : ∀ {a b : Int64}, Word.Divides a b →
    b.toInt ∣ a.toInt - (modFloor a b).toInt
  remainder_of_pos : ∀ {a b : Int64}, Word.Divides a b → 0 < b.toInt →
    0 ≤ (modFloor a b).toInt ∧ (modFloor a b).toInt < b.toInt
  remainder_of_neg : ∀ {a b : Int64}, Word.Divides a b → b.toInt < 0 →
    b.toInt < (modFloor a b).toInt ∧ (modFloor a b).toInt ≤ 0
  even_iff : ∀ a : Int64, isEven a = true ↔ Even a.toInt

lemma fmod_of_pos {x y : ℤ} (hy : 0 < y) : 0 ≤ x.fmod y ∧ x.fmod y < y :=
  ((Int.fdiv_fmod_unique hy).mp ⟨rfl, rfl⟩).2

lemma fmod_of_neg {x y : ℤ} (hy : y < 0) : y < x.fmod y ∧ x.fmod y ≤ 0 :=
  ((Int.fdiv_fmod_unique' hy).mp ⟨rfl, rfl⟩).2

namespace Word

variable {a b : Int64}

lemma toInt_eq_zero_iff : a.toInt = 0 ↔ a = 0 :=
  Int64.toInt_inj (y := 0)

lemma toInt_eq_one_iff : a.toInt = 1 ↔ a = 1 :=
  Int64.toInt_inj (y := 1)

lemma toInt_eq_neg_one_iff : a.toInt = -1 ↔ a = -1 :=
  Int64.toInt_inj (y := -1)

lemma lt_zero_iff : a < 0 ↔ a.toInt < 0 :=
  Int64.lt_iff_toInt_lt

lemma not_lt_zero (h : 0 ≤ a.toInt) : ¬ a < 0 :=
  mt lt_zero_iff.mp (not_lt.mpr h)

lemma Divides.toInt_ne_zero (h : Divides a b) : b.toInt ≠ 0 := fun hb =>
  h.1 (toInt_eq_zero_iff.mp hb)

/-- The quotient of words that have one is a word. -/
lemma Divides.fitsWord_fdiv (h : Divides a b) : FitsWord (a.toInt.fdiv b.toInt) := by
  obtain ⟨hlow, hhigh⟩ := fitsWord_toInt a
  have hsum := Int.mul_fdiv_add_fmod a.toInt b.toInt
  generalize hq : a.toInt.fdiv b.toInt = q at hsum
  rcases lt_or_gt_of_ne h.toInt_ne_zero with hneg | hpos
  · obtain ⟨hrest, hrest'⟩ := fmod_of_neg (x := a.toInt) hneg
    refine ⟨by nlinarith, ?_⟩
    by_contra hge
    -- only the least word divided by minus one is so great
    have hleast : a.toInt = -2 ^ 63 := by nlinarith
    have hone : b.toInt = -1 := by nlinarith
    exact h.2 ⟨Int64.toInt_inj.mp (hleast.trans Int64.toInt_minValue.symm),
      toInt_eq_neg_one_iff.mp hone⟩
  · obtain ⟨hrest, hrest'⟩ := fmod_of_pos (x := a.toInt) hpos
    exact ⟨by nlinarith, by nlinarith⟩

end Word

namespace WordDivision

variable {a b : Int64}

/-- **The quotient** is determined by what is asked of it. -/
lemma RoundsDown.toInt_divFloor [WordDivision] (hD : RoundsDown) (h : Word.Divides a b) :
    (divFloor a b).toInt = a.toInt.fdiv b.toInt := by
  rcases lt_or_gt_of_ne h.toInt_ne_zero with hneg | hpos
  · obtain ⟨hlow, hhigh⟩ := hD.quotient_of_neg h hneg
    have hunique := (Int.fdiv_fmod_unique' (a := a.toInt) (q := (divFloor a b).toInt)
      (r := a.toInt - b.toInt * (divFloor a b).toInt) hneg).mpr ⟨by ring, by linarith, by linarith⟩
    exact hunique.1.symm
  · obtain ⟨hlow, hhigh⟩ := hD.quotient_of_pos h hpos
    have hunique := (Int.fdiv_fmod_unique (a := a.toInt) (q := (divFloor a b).toInt)
      (r := a.toInt - b.toInt * (divFloor a b).toInt) hpos).mpr ⟨by ring, by linarith, by linarith⟩
    exact hunique.1.symm

/-- **The remainder** is determined by what is asked of it, and is what the quotient leaves. -/
lemma RoundsDown.toInt_modFloor [WordDivision] (hD : RoundsDown) (h : Word.Divides a b) :
    (modFloor a b).toInt = a.toInt.fmod b.toInt := by
  obtain ⟨q, hq⟩ := hD.dvd_sub_remainder h
  rcases lt_or_gt_of_ne h.toInt_ne_zero with hneg | hpos
  · have hunique := (Int.fdiv_fmod_unique' (a := a.toInt) (q := q) (r := (modFloor a b).toInt)
      hneg).mpr ⟨by linarith, hD.remainder_of_neg h hneg⟩
    exact hunique.2.symm
  · have hunique := (Int.fdiv_fmod_unique (a := a.toInt) (q := q) (r := (modFloor a b).toInt)
      hpos).mpr ⟨by linarith, hD.remainder_of_pos h hpos⟩
    exact hunique.2.symm

lemma toInt_ofIntegers_divFloor (h : Word.Divides a b) :
    (ofIntegers.divFloor a b).toInt = a.toInt.fdiv b.toInt :=
  Int64.toInt_ofInt_of_le h.fitsWord_fdiv.1 h.fitsWord_fdiv.2

lemma toInt_ofIntegers_modFloor (hb : b.toInt ≠ 0) :
    (ofIntegers.modFloor a b).toInt = a.toInt.fmod b.toInt := by
  obtain ⟨hlow, hhigh⟩ := fitsWord_toInt b
  rcases lt_or_gt_of_ne hb with hneg | hpos
  · obtain ⟨hrest, hrest'⟩ := fmod_of_neg (x := a.toInt) hneg
    exact Int64.toInt_ofInt_of_le (by omega) (by omega)
  · obtain ⟨hrest, hrest'⟩ := fmod_of_pos (x := a.toInt) hpos
    exact Int64.toInt_ofInt_of_le (by omega) (by omega)

/-- Division by way of the integers is as is asked. -/
lemma ofIntegers_roundsDown : @RoundsDown ofIntegers where
  quotient_of_pos {a b} h hb := by
    have hsum := Int.mul_fdiv_add_fmod a.toInt b.toInt
    obtain ⟨hrest, hrest'⟩ := fmod_of_pos (x := a.toInt) hb
    rw [toInt_ofIntegers_divFloor h]
    constructor <;> linarith
  quotient_of_neg {a b} h hb := by
    have hsum := Int.mul_fdiv_add_fmod a.toInt b.toInt
    obtain ⟨hrest, hrest'⟩ := fmod_of_neg (x := a.toInt) hb
    rw [toInt_ofIntegers_divFloor h]
    constructor <;> linarith
  dvd_sub_remainder {a b} h := by
    rw [toInt_ofIntegers_modFloor h.toInt_ne_zero, Int.fmod_def, sub_sub_cancel]
    exact dvd_mul_right _ _
  remainder_of_pos {a b} h hb := by
    rw [toInt_ofIntegers_modFloor h.toInt_ne_zero]
    exact fmod_of_pos hb
  remainder_of_neg {a b} h hb := by
    rw [toInt_ofIntegers_modFloor h.toInt_ne_zero]
    exact fmod_of_neg hb
  even_iff a := by
    rw [Int.even_iff]
    exact beq_iff_eq

end WordDivision

end StackVM
