/-
Integer arithmetic is exact or refused. What an operator means is said over the unbounded
integers: quotients are those of the rationals, rounded down, and bits are those of two's
complement. The machine gives this number where 64 bits hold it, and where they do not, or where
there is no such number, it raises an exception of a class of its own. It finds this out without an
operation that overflows: each operator sets apart the operands for which one would.

* `ArithOp.exactResult?`, `UnaryOp.exactResult?`: the mathematical results;
* `ArithOp.onInts_of_exact`: an operator on integers gives the mathematical result or refuses it;
* `ArithOp.Refuses`, `ArithOp.onInts_error_iff`: the reasons for which it is refused;
* `ArithOp.onInts?`, `ArithOp.onInts?_eq`: nothing overflows on the way;
* `ExactArithmetic`, `integer_arithmetic_is_exact`: **the operators on values**.
-/
import Mathlib
import StackVM.Builtin.Call
import StackVM.Proofs.Outcome
import StackVM.Proofs.WordArithmetic

namespace StackVM

/-! ### Checked results -/

/-- An integer that 64 bits hold is kept as it is. -/
lemma checkedInt_of_fits {z : ℤ} (hz : FitsWord z) :
    ∃ i : Int64, checkedInt z = .ok (.int i) ∧ i.toInt = z := by
  obtain ⟨i, hi, heq⟩ := Word.ofInt?_of_fits hz
  exact ⟨i, by rw [checkedInt, hi, checked], heq⟩

lemma checkedInt_of_not_fits {z : ℤ} (hz : ¬ FitsWord z) : checkedInt z = .error .intOverflow := by
  rw [checkedInt, Word.ofInt?_of_not_fits hz, checked]

/-- The check gives the number itself. -/
lemma checkedInt_eq_ok_iff {z : ℤ} {v : Value} :
    checkedInt z = .ok v ↔ ∃ i : Int64, v = .int i ∧ i.toInt = z := by
  constructor
  · intro hv
    by_cases hz : FitsWord z
    · obtain ⟨i, hi, heq⟩ := checkedInt_of_fits hz
      rw [hi] at hv
      cases hv
      exact ⟨i, rfl, heq⟩
    · rw [checkedInt_of_not_fits hz] at hv
      cases hv
  · rintro ⟨i, rfl, rfl⟩
    obtain ⟨j, hj, heq⟩ := checkedInt_of_fits (fitsWord_toInt i)
    rw [hj, Int64.toInt_inj.mp heq]

/-- The check refuses what 64 bits do not hold. -/
lemma checkedInt_eq_error_iff {z : ℤ} {c : Cause} :
    checkedInt z = .error c ↔ c = .intOverflow ∧ ¬ FitsWord z := by
  by_cases hz : FitsWord z
  · obtain ⟨i, hi, -⟩ := checkedInt_of_fits hz
    simp [hi, hz]
  · simp [checkedInt_of_not_fits hz, hz, eq_comm]

/-- The check does not change a number of 64 bits. -/
lemma checkedInt_toInt (a : Int64) : checkedInt a.toInt = .ok (.int a) :=
  checkedInt_eq_ok_iff.mpr ⟨a, rfl, rfl⟩

/-! ### Mathematical results -/

/-- The result of an operator over the unbounded integers, if there is one: a quotient is rounded
down, a remainder is what such a quotient leaves, and bits are those of two's complement. -/
def ArithOp.exactResult? (op : ArithOp) (x y : ℤ) : Option ℤ :=
  match op with
  | .add => some (x + y)
  | .subtract => some (x - y)
  | .multiply => some (x * y)
  | .floorDivide => if y = 0 then none else some ⌊(x : ℚ) / y⌋
  | .modulo => if y = 0 then none else some (x - y * ⌊(x : ℚ) / y⌋)
  | .trueDivide => none
  | .power => if y < 0 then none else some (x ^ y.toNat)
  | .lshift => if y < 0 then none else some (x * 2 ^ y.toNat)
  | .rshift => if y < 0 then none else some ⌊(x : ℚ) / 2 ^ y.toNat⌋
  | .and => some (x.land y)
  | .xor => some (x.xor y)
  | .or => some (x.lor y)

/-- The result of an operator on one integer, if it is a number. -/
def UnaryOp.exactResult? (op : UnaryOp) (x : ℤ) : Option ℤ :=
  match op with
  | .positive => some x
  | .negative => some (-x)
  | .invert => some x.lnot
  | .not => none

/-- The quotient of integers is that of the rationals, rounded down. -/
lemma floor_div_eq_fdiv {x y : ℤ} (hy : y ≠ 0) : ⌊(x : ℚ) / y⌋ = x.fdiv y := by
  have hsum : ((y * x.fdiv y + x.fmod y : ℤ) : ℚ) = x := by rw [Int.mul_fdiv_add_fmod]
  push_cast at hsum
  rw [Int.floor_eq_iff]
  rcases lt_or_gt_of_ne hy with hneg | hpos
  · obtain ⟨hlow, hhigh⟩ := fmod_of_neg (x := x) hneg
    have hlow' : (y : ℚ) < x.fmod y := by exact_mod_cast hlow
    have hhigh' : ((x.fmod y : ℤ) : ℚ) ≤ 0 := by exact_mod_cast hhigh
    have hneg' : (y : ℚ) < 0 := by exact_mod_cast hneg
    rw [le_div_iff_of_neg hneg', div_lt_iff_of_neg hneg']
    constructor <;> linarith
  · obtain ⟨hlow, hhigh⟩ := fmod_of_pos (x := x) hpos
    have hlow' : (0 : ℚ) ≤ x.fmod y := by exact_mod_cast hlow
    have hhigh' : ((x.fmod y : ℤ) : ℚ) < y := by exact_mod_cast hhigh
    have hpos' : (0 : ℚ) < y := by exact_mod_cast hpos
    rw [le_div_iff₀ hpos', div_lt_iff₀ hpos']
    constructor <;> linarith

/-- The remainder is what the quotient leaves. -/
lemma sub_mul_floor_div_eq_fmod {x y : ℤ} (hy : y ≠ 0) : x - y * ⌊(x : ℚ) / y⌋ = x.fmod y := by
  rw [floor_div_eq_fdiv hy, Int.fmod_def]

/-- A remainder lies between zero and the divisor, and has its sign. -/
lemma fmod_between {x y : ℤ} (hy : y ≠ 0) :
    0 ≤ x.fmod y ∧ x.fmod y < y ∨ y < x.fmod y ∧ x.fmod y ≤ 0 := by
  rcases lt_or_gt_of_ne hy with hneg | hpos
  · exact .inr (fmod_of_neg hneg)
  · exact .inl (fmod_of_pos hpos)

/-- A great power of a number beyond one is no word. -/
lemma not_fitsWord_pow {x : ℤ} (hx : 1 < x.natAbs) {n : ℕ} (hn : 64 ≤ n) :
    ¬ FitsWord (x ^ n) := by
  apply not_fitsWord_of_le_natAbs
  calc 2 ^ 64 ≤ 2 ^ n := Nat.pow_le_pow_right (by decide) hn
    _ ≤ x.natAbs ^ n := Nat.pow_le_pow_left hx n
    _ = (x ^ n).natAbs := (Int.natAbs_pow x n).symm

/-- A shift to the left by 64 or more leaves no bit of a number inside the word. -/
lemma not_fitsWord_lshift {x : ℤ} (hx : x ≠ 0) {n : ℕ} (hn : 64 ≤ n) :
    ¬ FitsWord (x * 2 ^ n) := by
  have hpow : 2 ^ 64 ≤ 2 ^ n := Nat.pow_le_pow_right (by decide) hn
  apply not_fitsWord_of_le_natAbs
  calc 2 ^ 64 ≤ 1 * 2 ^ n := by omega
    _ ≤ x.natAbs * 2 ^ n := Nat.mul_le_mul_right _ (Int.natAbs_pos.mpr hx)
    _ = (x * 2 ^ n).natAbs := by simp [Int.natAbs_mul, Int.natAbs_pow]

/-- A shift to the right rounds down. -/
lemma shiftRight_eq_floor (x : ℤ) (n : ℕ) : x >>> n = ⌊(x : ℚ) / 2 ^ n⌋ := by
  rw [Int.shiftRight_eq_div_pow, ← Rat.floor_intCast_div_natCast]
  push_cast
  rfl

/-- A shift to the right by 64 or more leaves the sign of a word. -/
lemma shiftRight_of_le (a : Int64) {n : ℕ} (hn : 64 ≤ n) :
    a.toInt >>> n = if a.toInt < 0 then -1 else 0 := by
  have hlow := a.le_toInt
  have hhigh := a.toInt_lt
  have hpow : (2 : ℤ) ^ 64 ≤ 2 ^ n := pow_le_pow_right₀ (by norm_num) hn
  rw [Int.shiftRight_eq_div_pow]
  push_cast
  split
  next hneg => exact Int.ediv_eq_neg_one_of_neg_of_le hneg (by omega)
  next hpos => exact Int.ediv_eq_zero_of_lt (by omega) (by omega)

/-! ### Operators on integers -/

namespace ArithOp

variable [WordDivision] {op : ArithOp} {a b : Int64} {z : ℤ}

/-- **A quotient.** The only one that overflows is set apart. -/
lemma onInts_floorDivide (hD : WordDivision.RoundsDown) (hb : b.toInt ≠ 0) :
    floorDivide.onInts a b = checkedInt (a.toInt.fdiv b.toInt) := by
  have hb' : b ≠ 0 := mt Word.toInt_eq_zero_iff.mpr hb
  simp only [onInts, if_neg hb']
  split
  next hleast =>
    obtain ⟨rfl, rfl⟩ := hleast
    exact (checkedInt_of_not_fits (by decide)).symm
  next hother => rw [← hD.toInt_divFloor ⟨hb', hother⟩, checkedInt_toInt]

/-- **A remainder.** With minus one as the divisor it is zero, and is not computed. -/
lemma onInts_modulo (hD : WordDivision.RoundsDown) (hb : b.toInt ≠ 0) :
    modulo.onInts a b = checkedInt (a.toInt.fmod b.toInt) := by
  have hb' : b ≠ 0 := mt Word.toInt_eq_zero_iff.mpr hb
  simp only [onInts, if_neg hb']
  split
  next hone =>
    subst hone
    have hzero : a.toInt.fmod (-1) = (0 : Int64).toInt := by
      have := fmod_of_neg (x := a.toInt) (y := -1) (by decide)
      rw [Int64.toInt_zero]
      omega
    exact (checkedInt_toInt 0).symm.trans (congrArg checkedInt hzero.symm)
  next hother =>
    have hdivides : Word.Divides a b := ⟨hb', fun h => hother h.2⟩
    rw [← hD.toInt_modFloor hdivides, checkedInt_toInt]

/-- A power with an exponent of more than 32 bits: all but those of zero, one and minus one are
refused. -/
lemma onInts_power_of_le (hD : WordDivision.RoundsDown) (hb : 2 ^ 32 ≤ b.toInt) :
    power.onInts a b = checkedInt (a.toInt ^ b.toInt.toNat) := by
  simp only [onInts, if_neg (Word.not_lt_zero (by omega : 0 ≤ b.toInt)), Word.toNat32?_of_le hb]
  split
  next hunit =>
    have hpow : a.toInt ^ b.toInt.toNat = a.toInt := by
      rcases hunit with rfl | rfl
      · exact zero_pow (by omega)
      · exact one_pow _
    rw [hpow, checkedInt_toInt]
  next hunit =>
    split
    next hone =>
      subst hone
      have hparity : Even b.toInt.toNat ↔ WordDivision.isEven b = true := by
        rw [hD.even_iff, ← Int.even_coe_nat, Int.toNat_of_nonneg (by omega)]
      change _ = checkedInt ((-1) ^ b.toInt.toNat)
      split
      next heven => rw [(hparity.mpr heven).neg_one_pow, ← checkedInt_toInt]; rfl
      next hodd =>
        rw [(Nat.not_even_iff_odd.mp (mt hparity.mp hodd)).neg_one_pow, ← checkedInt_toInt]
        rfl
    next hone =>
      have hgreat : 1 < a.toInt.natAbs := by
        have hzero := mt Word.toInt_eq_zero_iff.mp (not_or.mp hunit).1
        have hplus : a.toInt ≠ 1 := mt Word.toInt_eq_one_iff.mp (not_or.mp hunit).2
        have hminus := mt Word.toInt_eq_neg_one_iff.mp hone
        omega
      exact (checkedInt_of_not_fits (not_fitsWord_pow hgreat (by omega))).symm

/-- **A power.** -/
lemma onInts_power (hD : WordDivision.RoundsDown) (hb : 0 ≤ b.toInt) :
    power.onInts a b = checkedInt (a.toInt ^ b.toInt.toNat) := by
  rcases lt_or_ge b.toInt (2 ^ 32) with hlt | hle
  · simp only [onInts, if_neg (Word.not_lt_zero hb), Word.toNat32?_of_lt hb hlt, Word.pow?_eq]
    rfl
  · exact onInts_power_of_le hD hle

/-- **A shift to the left.** That of zero, or one that is sure to overflow, is not computed. -/
lemma onInts_lshift (hb : 0 ≤ b.toInt) :
    lshift.onInts a b = checkedInt (a.toInt * 2 ^ b.toInt.toNat) := by
  simp only [onInts, if_neg (Word.not_lt_zero hb)]
  split
  next ha =>
    subst ha
    rw [Int64.toInt_zero, zero_mul]
    exact (checkedInt_toInt 0).symm
  next ha =>
    have ha' : a.toInt ≠ 0 := mt Word.toInt_eq_zero_iff.mp ha
    have hcount := Word.shiftCount_eq hb
    split
    next hgreat => exact (checkedInt_of_not_fits (not_fitsWord_lshift ha' (by omega))).symm
    next hsmall => rw [Word.toInt_shiftLeft a (not_le.mp hsmall), hcount.resolve_right (by omega)]

/-- **A shift to the right.** -/
lemma onInts_rshift (hb : 0 ≤ b.toInt) :
    rshift.onInts a b = checkedInt (a.toInt >>> b.toInt.toNat) := by
  have hcount := Word.shiftCount_eq hb
  simp only [onInts, if_neg (Word.not_lt_zero hb)]
  split
  next hgreat =>
    rw [shiftRight_of_le a (by omega), ← checkedInt_toInt]
    simp only [Word.lt_zero_iff]
    split <;> rfl
  next hsmall =>
    rw [← hcount.resolve_right (by omega), ← Word.toInt_shiftRight, checkedInt_toInt]

/-- **An operator on integers** that has a mathematical result gives it, if 64 bits hold it, and
refuses it otherwise. -/
lemma onInts_of_exact (hD : WordDivision.RoundsDown)
    (hz : op.exactResult? a.toInt b.toInt = some z) : op.onInts a b = checkedInt z := by
  cases op with
  | add | subtract | multiply =>
      cases hz
      rfl
  | floorDivide =>
      obtain ⟨hb, ⟨⟩⟩ := Option.ite_none_left_eq_some.mp hz
      rw [floor_div_eq_fdiv hb, onInts_floorDivide hD hb]
  | modulo =>
      obtain ⟨hb, ⟨⟩⟩ := Option.ite_none_left_eq_some.mp hz
      rw [sub_mul_floor_div_eq_fmod hb, onInts_modulo hD hb]
  | trueDivide => cases hz
  | power =>
      obtain ⟨hb, ⟨⟩⟩ := Option.ite_none_left_eq_some.mp hz
      exact onInts_power hD (not_lt.mp hb)
  | lshift =>
      obtain ⟨hb, ⟨⟩⟩ := Option.ite_none_left_eq_some.mp hz
      exact onInts_lshift (not_lt.mp hb)
  | rshift =>
      obtain ⟨hb, ⟨⟩⟩ := Option.ite_none_left_eq_some.mp hz
      rw [← shiftRight_eq_floor, onInts_rshift (not_lt.mp hb)]
  | and =>
      cases hz
      rw [← toInt_and, checkedInt_toInt]
      rfl
  | xor =>
      cases hz
      rw [← toInt_xor, checkedInt_toInt]
      rfl
  | or =>
      cases hz
      rw [← toInt_or, checkedInt_toInt]
      rfl

/-- The class of the fault of an operator that has no mathematical result for its operands. -/
lemma onInts_of_not_exact (hz : op.exactResult? a.toInt b.toInt = none) (hop : op ≠ .trueDivide) :
    ((op = .floorDivide ∨ op = .modulo) ∧ b.toInt = 0 ∧
        ∃ c, op.onInts a b = .error c ∧ c.cls = .zeroDivisionError) ∨
      (op = .power ∧ b.toInt < 0 ∧ a.toInt = 0 ∧ op.onInts a b = .error .zeroNegativePower) ∨
      (op = .power ∧ b.toInt < 0 ∧ a.toInt ≠ 0 ∧ ∃ d, op.onInts a b = .ok (.float d)) ∨
      ((op = .lshift ∨ op = .rshift) ∧ b.toInt < 0 ∧ op.onInts a b = .error .negativeShift) := by
  cases op with
  | floorDivide =>
      have hb : b.toInt = 0 := by simpa [exactResult?] using hz
      exact .inl ⟨.inl rfl, hb, .zeroIntDivision, if_pos (Word.toInt_eq_zero_iff.mp hb), rfl⟩
  | modulo =>
      have hb : b.toInt = 0 := by simpa [exactResult?] using hz
      exact .inl ⟨.inr rfl, hb, .zeroIntModulo, if_pos (Word.toInt_eq_zero_iff.mp hb), rfl⟩
  | power =>
      have hb : b.toInt < 0 := by simpa [exactResult?] using hz
      have hneg : power.onInts a b = if a = 0 then .error .zeroNegativePower
          else .ok (.float ((Double.ofInt a.toInt).pow (.ofInt b.toInt))) :=
        if_pos (Word.lt_zero_iff.mpr hb)
      by_cases ha : a.toInt = 0
      · exact .inr (.inl ⟨rfl, hb, ha, hneg.trans (if_pos (Word.toInt_eq_zero_iff.mp ha))⟩)
      · exact .inr (.inr (.inl ⟨rfl, hb, ha, _,
          hneg.trans (if_neg (mt Word.toInt_eq_zero_iff.mpr ha))⟩))
  | lshift =>
      have hb : b.toInt < 0 := by simpa [exactResult?] using hz
      exact .inr (.inr (.inr ⟨.inl rfl, hb, if_pos (Word.lt_zero_iff.mpr hb)⟩))
  | rshift =>
      have hb : b.toInt < 0 := by simpa [exactResult?] using hz
      exact .inr (.inr (.inr ⟨.inr rfl, hb, if_pos (Word.lt_zero_iff.mpr hb)⟩))
  | trueDivide => exact absurd rfl hop
  | _ => cases hz

/-- Why an operator on integers has no result, and as what class of exception it is raised. -/
inductive Refuses (op : ArithOp) (x y : ℤ) : ExcClass → Prop where
  | overflow {z : ℤ} (exact : op.exactResult? x y = some z) (great : ¬ FitsWord z) :
      Refuses op x y .overflowError
  | zeroDivisor (division : op = .floorDivide ∨ op = .modulo) (zero : y = 0) :
      Refuses op x y .zeroDivisionError
  | zeroPower (power : op = .power) (zero : x = 0) (negative : y < 0) :
      Refuses op x y .zeroDivisionError
  | negativeShift (shift : op = .lshift ∨ op = .rshift) (negative : y < 0) :
      Refuses op x y .valueError

/-- **The faults of an operator on integers.** -/
lemma onInts_error_iff (hD : WordDivision.RoundsDown) (hop : op ≠ .trueDivide) {cls : ExcClass} :
    (∃ c, op.onInts a b = .error c ∧ c.cls = cls) ↔ op.Refuses a.toInt b.toInt cls := by
  constructor
  · rintro ⟨c, hc, rfl⟩
    cases hz : op.exactResult? a.toInt b.toInt with
    | some z =>
        rw [onInts_of_exact hD hz] at hc
        obtain ⟨rfl, hfits⟩ := checkedInt_eq_error_iff.mp hc
        exact .overflow hz hfits
    | none =>
        rcases onInts_of_not_exact hz hop with ⟨hdiv, hb, e, he, hcls⟩ | ⟨hpow, hb, ha, he⟩ |
          ⟨-, -, -, d, he⟩ | ⟨hshift, hb, he⟩ <;> rw [he] at hc <;> cases hc
        · exact hcls ▸ .zeroDivisor hdiv hb
        · exact .zeroPower hpow ha hb
        · exact .negativeShift hshift hb
  · intro hrefuses
    cases hrefuses with
    | overflow exact great =>
        exact ⟨_, (onInts_of_exact hD exact).trans (checkedInt_of_not_fits great), rfl⟩
    | zeroDivisor division zero =>
        have hzero := Word.toInt_eq_zero_iff.mp zero
        rcases division with rfl | rfl
        · exact ⟨.zeroIntDivision, if_pos hzero, rfl⟩
        · exact ⟨.zeroIntModulo, if_pos hzero, rfl⟩
    | zeroPower power zero negative =>
        subst power
        exact ⟨.zeroNegativePower, (if_pos (Word.lt_zero_iff.mpr negative)).trans
          (if_pos (Word.toInt_eq_zero_iff.mp zero)), rfl⟩
    | negativeShift shift negative =>
        have hneg := Word.lt_zero_iff.mpr negative
        rcases shift with rfl | rfl <;> exact ⟨.negativeShift, if_pos hneg, rfl⟩

/-- The results of an operator on integers: the mathematical one, or a float. -/
lemma onInts_ok (hD : WordDivision.RoundsDown) {v : Value} (hv : op.onInts a b = .ok v) :
    (∃ i, v = .int i ∧ op.exactResult? a.toInt b.toInt = some i.toInt) ∨ ∃ d, v = .float d := by
  cases hz : op.exactResult? a.toInt b.toInt with
  | some z =>
      rw [onInts_of_exact hD hz] at hv
      obtain ⟨i, rfl, rfl⟩ := checkedInt_eq_ok_iff.mp hv
      exact .inl ⟨i, rfl, rfl⟩
  | none =>
      by_cases hop : op = .trueDivide
      · subst hop
        simp only [onInts, trueQuotient] at hv
        split at hv <;> cases hv
        exact .inr ⟨_, rfl⟩
      · rcases onInts_of_not_exact hz hop with ⟨-, -, e, he, -⟩ | ⟨-, -, -, he⟩ |
          ⟨-, -, -, d, he⟩ | ⟨-, -, he⟩ <;> rw [he] at hv <;> cases hv
        exact .inr ⟨d, rfl⟩

/-- The operators that work bit by bit. -/
def isBitwise (op : ArithOp) : Bool :=
  op == .and || op == .xor || op == .or

/-- On truth values an operator bit by bit gives the truth value of the same number. -/
lemma onBools_eq_some {p q c : Bool} (hc : op.onBools p q = some c) :
    op.isBitwise = true ∧ ∃ i, (Value.bool c).asInt? = some i ∧
      ∀ a b, (Value.bool p).asInt? = some a → (Value.bool q).asInt? = some b →
        op.onInts a b = .ok (.int i) := by
  cases op with
  | and | xor | or =>
      cases hc
      refine ⟨rfl, _, rfl, ?_⟩
      rintro a b ⟨⟩ ⟨⟩
      cases p <;> cases q <;> rfl
  | _ => cases hc

end ArithOp

/-! ### Operations that overflow -/

section Overflow

variable [WordDivision]

namespace Word

/-- The quotient, or nothing where its computation overflows or has no result. -/
def div? (a b : Int64) : Option Int64 :=
  if b = 0 ∨ (a = Int64.minValue ∧ b = -1) then none else some (WordDivision.divFloor a b)

/-- The remainder, or nothing where its computation overflows or has no result: it does so where
the quotient does. -/
def mod? (a b : Int64) : Option Int64 :=
  if b = 0 ∨ (a = Int64.minValue ∧ b = -1) then none else some (WordDivision.modFloor a b)

/-- A shift to the left in 128 bits, or nothing if it is by more places than there are. -/
def shiftLeft? (a : Int64) (n : ℕ) : Option (BitVec 128) :=
  if n < 128 then some (shiftLeft a n) else none

/-- A shift to the right, or nothing if it is by more places than there are. -/
def shiftRight? (a : Int64) (n : ℕ) : Option Int64 :=
  if n < 64 then some (shiftRight a n) else none

end Word

namespace ArithOp

/-- An operator on integers, as it is computed by operations that can overflow; nothing if one of
them does. -/
def onInts? (op : ArithOp) (a b : Int64) : Option (Except Cause Value) :=
  match op with
  | .floorDivide =>
    if b = 0 then some (.error .zeroIntDivision)
    else if a = Int64.minValue ∧ b = -1 then some (.error .intOverflow)
    else (Word.div? a b).map fun q => .ok (.int q)
  | .modulo =>
    if b = 0 then some (.error .zeroIntModulo)
    else if b = -1 then some (.ok (.int 0))
    else (Word.mod? a b).map fun m => .ok (.int m)
  | .lshift =>
    if b < 0 then some (.error .negativeShift)
    else if a = 0 then some (.ok (.int 0))
    else if 64 ≤ Word.shiftCount b then some (.error .intOverflow)
    else (Word.shiftLeft? a (Word.shiftCount b)).map fun w => checkedInt w.toInt
  | .rshift =>
    if b < 0 then some (.error .negativeShift)
    else if 64 ≤ Word.shiftCount b then some (.ok (.int (if a < 0 then -1 else 0)))
    else (Word.shiftRight? a (Word.shiftCount b)).map fun i => .ok (.int i)
  -- all other operators check their results, or have no greater ones
  | op => some (op.onInts a b)

/-- **Nothing overflows on the way**: the operands for which an operation would are set apart. -/
lemma onInts?_eq (op : ArithOp) (a b : Int64) : op.onInts? a b = some (op.onInts a b) := by
  cases op with
  | floorDivide =>
      simp only [onInts?, onInts, Word.div?]
      split
      next => rfl
      next hzero =>
        split
        next => rfl
        next hleast => rw [if_neg (not_or.mpr ⟨hzero, hleast⟩), Option.map_some]
  | modulo =>
      simp only [onInts?, onInts, Word.mod?]
      split
      next => rfl
      next hzero =>
        split
        next => rfl
        next hone =>
          rw [if_neg (not_or.mpr ⟨hzero, fun hleast => hone hleast.2⟩), Option.map_some]
  | lshift =>
      simp only [onInts?, onInts, Word.shiftLeft?]
      split
      next => rfl
      next =>
        split
        next => rfl
        next =>
          split
          next => rfl
          next hsmall => rw [if_pos (by omega), Option.map_some]
  | rshift =>
      simp only [onInts?, onInts, Word.shiftRight?]
      split
      next => rfl
      next =>
        split
        next => rfl
        next hsmall => rw [if_pos (by omega), Option.map_some]
  | _ => rfl

end ArithOp

end Overflow

/-! ### Operators on values -/

/-- An evaluation raises an exception of a class. -/
def Eval.Raises {α : Type} (x : Eval α) (h : Heap) (cls : ExcClass) : Prop :=
  ∃ c h', x h = .error c h' ∧ c.cls = cls

namespace Eval

variable {α : Type} {x : Eval α} {h h' : Heap} {cls : ExcClass}

lemma not_raises_of_ok {v : α} (hx : x h = .ok v h') : ¬ x.Raises h cls := by
  rintro ⟨c, h'', hc, -⟩
  rw [hx] at hc
  cases hc

lemma raises_iff_of_error {c : Cause} (hx : x h = .error c h') :
    x.Raises h cls ↔ c.cls = cls := by
  simp [Raises, hx]

/-- A change of the value raises nothing. -/
lemma raises_bind_pure {β : Type} {f : α → β} :
    (x >>= fun v => pure (f v)).Raises h cls ↔ x.Raises h cls := by
  have hpure : ∀ v h' c h'', (pure (f v) : Eval β) h' ≠ .error c h'' := by
    intro v h' c h'' he
    cases he
  simp only [Raises, bind_error_iff, hpure, and_false, exists_false, or_false]

/-- A checked integer is refused only if 64 bits do not hold it. -/
lemma raises_checkedInt_iff {z : ℤ} :
    (ofExcept (checkedInt z)).Raises h cls ↔ cls = .overflowError ∧ ¬ FitsWord z := by
  by_cases hz : FitsWord z
  · obtain ⟨i, hi, -⟩ := checkedInt_of_fits hz
    have hok : ofExcept (checkedInt z) h = .ok (.int i) h := by rw [hi]; rfl
    simp [not_raises_of_ok hok, hz]
  · have herror : ofExcept (checkedInt z) h = .error .intOverflow h := by
      rw [checkedInt_of_not_fits hz]; rfl
    simp [raises_iff_of_error herror, Cause.cls, hz, eq_comm]

end Eval

namespace Value

section Binary

variable [WordDivision] {op : ArithOp} {l r : Value} {a b : Int64}

/-- Numbers are combined as integers, except that operators bit by bit give a truth value for two
of them. -/
lemma onScalars_of_ints (op : ArithOp) (hl : l.asInt? = some a) (hr : r.asInt? = some b) :
    (∃ p q c, l = .bool p ∧ r = .bool q ∧ op.onBools p q = some c ∧
        op.onScalars l r = some (.ok (.bool c))) ∨
      (¬ (op.isBitwise = true ∧ l.typeTag = .bool ∧ r.typeTag = .bool) ∧
        op.onScalars l r = some (op.onInts a b)) := by
  have hnumbers : op.onNumbers l r = some (op.onInts a b) := by
    simp only [ArithOp.onNumbers, hl, hr]
  cases l with
  | bool p =>
      cases r with
      | bool q =>
          cases hc : op.onBools p q with
          | some c => exact .inl ⟨p, q, c, rfl, rfl, hc, by simp only [ArithOp.onScalars, hc]⟩
          | none =>
              refine .inr ⟨?_, by simpa only [ArithOp.onScalars, hc] using hnumbers⟩
              cases op with
              | and | xor | or => cases hc
              | _ => simp [ArithOp.isBitwise]
      | int j => exact .inr ⟨by simp [typeTag], hnumbers⟩
      | _ => cases hr
  | int i => exact .inr ⟨by simp [typeTag], hnumbers⟩
  | _ => cases hl

lemma binary_of_ok {v : Value} (hv : op.onScalars l r = some (.ok v)) (h : Heap) :
    binary op l r h = .ok v h := by
  simp only [binary, arith, arith?, hv]
  rfl

lemma binary_of_error {c : Cause} (hc : op.onScalars l r = some (.error c)) (h : Heap) :
    binary op l r h = .error c h := by
  simp only [binary, arith, arith?, hc]
  rfl

/-- An operator on values that are integers gives the number that it gives on these. -/
lemma binary_of_onInts_ok (hl : l.asInt? = some a) (hr : r.asInt? = some b) {v : Value}
    (hv : op.onInts a b = .ok v) (h : Heap) :
    ∃ w, binary op l r h = .ok w h ∧ w.asInt? = v.asInt? := by
  rcases onScalars_of_ints op hl hr with ⟨p, q, c, rfl, rfl, hc, hscalars⟩ | ⟨-, hscalars⟩
  · obtain ⟨-, i, hi, hints⟩ := ArithOp.onBools_eq_some hc
    rw [hints a b hl hr] at hv
    cases hv
    exact ⟨_, binary_of_ok hscalars h, hi⟩
  · rw [hv] at hscalars
    exact ⟨v, binary_of_ok hscalars h, rfl⟩

lemma binary_of_onInts_error (hl : l.asInt? = some a) (hr : r.asInt? = some b) {c : Cause}
    (hc : op.onInts a b = .error c) (h : Heap) : binary op l r h = .error c h := by
  rcases onScalars_of_ints op hl hr with ⟨p, q, t, rfl, rfl, ht, -⟩ | ⟨-, hscalars⟩
  · obtain ⟨-, i, -, hints⟩ := ArithOp.onBools_eq_some ht
    rw [hints a b hl hr] at hc
    cases hc
  · rw [hc] at hscalars
    exact binary_of_error hscalars h

/-- An operator on values that are integers fails as it does on these. -/
lemma binary_raises_iff (hl : l.asInt? = some a) (hr : r.asInt? = some b) {h : Heap}
    {cls : ExcClass} :
    (binary op l r).Raises h cls ↔ ∃ c, op.onInts a b = .error c ∧ c.cls = cls := by
  cases hints : op.onInts a b with
  | ok v =>
      obtain ⟨w, hw, -⟩ := binary_of_onInts_ok hl hr hints h
      simp [Eval.not_raises_of_ok hw]
  | error c => simp [Eval.raises_iff_of_error (binary_of_onInts_error hl hr hints h)]

/-- The type of a result. -/
lemma binary_typeTag (hD : WordDivision.RoundsDown) (hl : l.asInt? = some a)
    (hr : r.asInt? = some b) {h : Heap} {v : Value} (hv : binary op l r h = .ok v h) :
    v.typeTag = .bool ↔ op.isBitwise = true ∧ l.typeTag = .bool ∧ r.typeTag = .bool := by
  rcases onScalars_of_ints op hl hr with
    ⟨p, q, c, rfl, rfl, hc, hscalars⟩ | ⟨hnot, hscalars⟩
  · rw [binary_of_ok hscalars] at hv
    cases hv
    simp [typeTag, (ArithOp.onBools_eq_some hc).1]
  · refine iff_of_false ?_ hnot
    cases hints : op.onInts a b with
    | error c =>
        rw [binary_of_onInts_error hl hr hints] at hv
        cases hv
    | ok w =>
        rw [hints] at hscalars
        rw [binary_of_ok hscalars] at hv
        cases hv
        rcases ArithOp.onInts_ok hD hints with ⟨i, rfl, -⟩ | ⟨d, rfl⟩ <;> simp [typeTag]

/-- An integer that an operator gives is the mathematical result. -/
lemma exact_of_binary_ok (hD : WordDivision.RoundsDown) {i : Int64} {h : Heap}
    (hl : l.asInt? = some a) (hr : r.asInt? = some b) (hi : binary op l r h = .ok (.int i) h) :
    op.exactResult? a.toInt b.toInt = some i.toInt := by
  cases hints : op.onInts a b with
  | error c =>
      rw [binary_of_onInts_error hl hr hints] at hi
      cases hi
  | ok v =>
      obtain ⟨w, hw, hv⟩ := binary_of_onInts_ok hl hr hints h
      rw [hi] at hw
      cases hw
      rcases ArithOp.onInts_ok hD hints with ⟨j, rfl, hexact⟩ | ⟨d, rfl⟩
      · cases hv
        exact hexact
      · cases hv

end Binary

section Unary

variable {l : Value} {a : Int64}

/-- An operator on one integer that has a mathematical result gives it or refuses it. -/
lemma unary_of_exact {op : UnaryOp} {z : ℤ} (hl : l.asInt? = some a)
    (hz : op.exactResult? a.toInt = some z) : unary op l = Eval.ofExcept (checkedInt z) := by
  have hnumber : l = .int a ∨ ∃ p, l = .bool p := by
    cases l with
    | int i => exact .inl (congrArg Value.int (Option.some.inj hl))
    | bool p => exact .inr ⟨p, rfl⟩
    | _ => cases hl
  cases op with
  | positive =>
      cases hz
      rw [checkedInt_toInt]
      rcases hnumber with rfl | ⟨p, rfl⟩ <;> cases hl <;> rfl
  | negative =>
      cases hz
      cases hc : checkedInt (-a.toInt) <;> rcases hnumber with rfl | ⟨p, rfl⟩ <;> cases hl <;>
        simp only [unary, asInt?, hc] <;> rfl
  | invert =>
      cases hz
      rw [← toInt_not, checkedInt_toInt]
      rcases hnumber with rfl | ⟨p, rfl⟩ <;> cases hl <;> rfl
  | not => cases hz

lemma unary_raises_iff {op : UnaryOp} (hl : l.asInt? = some a) {h : Heap} {cls : ExcClass} :
    (unary op l).Raises h cls ↔
      cls = .overflowError ∧ ∃ z, op.exactResult? a.toInt = some z ∧ ¬ FitsWord z := by
  cases hz : op.exactResult? a.toInt with
  | none =>
      cases op with
      | not =>
          have hok : unary .not l h = .ok (.bool (!h.truth l)) h := rfl
          simp [Eval.not_raises_of_ok hok]
      | _ => cases hz
  | some z => simp [Eval.raises_checkedInt_iff, unary_of_exact hl hz]

/-- The absolute value of an integer. -/
lemma absolute_eq (hl : l.asInt? = some a) : Builtin.absolute l = checkedInt |a.toInt| := by
  cases l with
  | int i =>
      cases hl
      rw [Builtin.absolute, checkedInt, Word.ofInt?, Int.abs_eq_natAbs]
      split
      next hlt => rw [if_pos (by omega)]; rfl
      next hge => rw [if_neg (by omega)]; rfl
  | bool p =>
      cases hl
      cases p <;> rfl
  | _ => cases hl

end Unary

end Value

/-- The absolute value is called with one argument. -/
lemma Builtin.call_abs (v : Value) :
    call .abs { positional := [v] } = Eval.ofExcept (absolute v) >>= fun w => pure (w, []) :=
  rfl

/-- **What integer arithmetic gives** for two values that stand for the integers `x` and `y`. -/
structure ExactArithmetic [WordDivision] (l r : Value) (x y : ℤ) (h : Heap) : Prop where
  /-- A mathematical result that 64 bits hold is given. -/
  value : ∀ op z, op.exactResult? x y = some z → FitsWord z →
    ∃ v i, Value.binary op l r h = .ok v h ∧ v.asInt? = some i ∧ i.toInt = z
  /-- Only operators bit by bit give a truth value, and only for two of them. -/
  bool_iff : ∀ op v, Value.binary op l r h = .ok v h →
    (v.typeTag = .bool ↔ op.isBitwise = true ∧ l.typeTag = .bool ∧ r.typeTag = .bool)
  /-- An exception of a class is raised exactly for the reasons that there are for it. -/
  raises_iff : ∀ op cls, op ≠ .trueDivide →
    ((Value.binary op l r).Raises h cls ↔ op.Refuses x y cls)
  /-- Quotient and remainder make up the dividend, and the remainder has the sign of the
  divisor. -/
  division : ∀ q m, Value.binary .floorDivide l r h = .ok (.int q) h →
    Value.binary .modulo l r h = .ok (.int m) h →
      x = q.toInt * y + m.toInt ∧ (0 ≤ m.toInt ∧ m.toInt < y ∨ y < m.toInt ∧ m.toInt ≤ 0)
  unary_value : ∀ op z, op.exactResult? x = some z → FitsWord z →
    ∃ i, Value.unary op l h = .ok (.int i) h ∧ i.toInt = z
  unary_raises_iff : ∀ op cls, (Value.unary op l).Raises h cls ↔
    cls = .overflowError ∧ ∃ z, op.exactResult? x = some z ∧ ¬ FitsWord z
  abs_value : FitsWord |x| →
    ∃ i, Builtin.call .abs { positional := [l] } h = .ok (.int i, []) h ∧ i.toInt = |x|
  abs_raises_iff : ∀ cls, (Builtin.call .abs { positional := [l] }).Raises h cls ↔
    cls = .overflowError ∧ ¬ FitsWord |x|

/-- **Integer arithmetic is exact or refused.** An operator on two values that stand for integers,
truth values among them, gives its mathematical result if 64 bits hold it. It overflows exactly if
there is a result that they do not hold, a division by zero is raised exactly for a zero divisor
and for zero to a negative power, and a bad value exactly for a shift by a negative number.
Nothing else is raised. The same goes for the operators on one value and for the absolute value,
which can only overflow. No operation on the way overflows. Of division and parity this asks only
that they round down, and tell even from odd, where words have a quotient. -/
theorem integer_arithmetic_is_exact [WordDivision] (hD : WordDivision.RoundsDown) {l r : Value}
    {a b : Int64} (hl : l.asInt? = some a) (hr : r.asInt? = some b) (h : Heap) :
    ExactArithmetic l r a.toInt b.toInt h ∧
      ∀ op : ArithOp, op.onInts? a b = some (op.onInts a b) := by
  refine ⟨?_, fun op => ArithOp.onInts?_eq op a b⟩
  constructor
  case value =>
    intro op z hz hfits
    obtain ⟨i, hi, heq⟩ := checkedInt_of_fits hfits
    obtain ⟨v, hv, hint⟩ :=
      Value.binary_of_onInts_ok hl hr ((op.onInts_of_exact hD hz).trans hi) h
    exact ⟨v, i, hv, hint, heq⟩
  case bool_iff => exact fun op v hv => Value.binary_typeTag hD hl hr hv
  case raises_iff =>
    exact fun op cls hop =>
      (Value.binary_raises_iff hl hr).trans (ArithOp.onInts_error_iff hD hop)
  case division =>
    intro q m hq hm
    obtain ⟨hb, hquotient⟩ :=
      Option.ite_none_left_eq_some.mp (Value.exact_of_binary_ok hD hl hr hq)
    obtain ⟨-, hremainder⟩ :=
      Option.ite_none_left_eq_some.mp (Value.exact_of_binary_ok hD hl hr hm)
    rw [← Option.some.inj hquotient, ← Option.some.inj hremainder, sub_mul_floor_div_eq_fmod hb,
      floor_div_eq_fdiv hb, Int.fdiv_mul_add_fmod]
    exact ⟨rfl, fmod_between hb⟩
  case unary_value =>
    intro op z hz hfits
    obtain ⟨i, hi, heq⟩ := checkedInt_of_fits hfits
    rw [Value.unary_of_exact hl hz, hi]
    exact ⟨i, rfl, heq⟩
  case unary_raises_iff => exact fun op cls => Value.unary_raises_iff hl
  case abs_value =>
    intro hfits
    obtain ⟨i, hi, heq⟩ := checkedInt_of_fits hfits
    rw [Builtin.call_abs, Value.absolute_eq hl, hi]
    exact ⟨i, rfl, heq⟩
  case abs_raises_iff =>
    intro cls
    rw [Builtin.call_abs, Value.absolute_eq hl, Eval.raises_bind_pure, Eval.raises_checkedInt_iff]

/-- The least integer divided by minus one overflows, and leaves the remainder zero; divided by
three it is rounded down. Minus one to a power of more than 32 bits is one or minus one. Shifted to
the right beyond its bits the least integer is minus one, and its absolute value overflows. -/
theorem arithmetic_of_least_integer :
    let l : Value := .int Int64.minValue
    @WordDivision.RoundsDown .ofIntegers ∧
      (Value.binary .floorDivide l (.int (-1))).Raises .empty .overflowError ∧
      (∃ v i, Value.binary .modulo l (.int (-1)) .empty = .ok v .empty ∧ v.asInt? = some i ∧
        i.toInt = 0) ∧
      (∃ v i, Value.binary .floorDivide l (.int 3) .empty = .ok v .empty ∧ v.asInt? = some i ∧
        i.toInt = -3074457345618258603) ∧
      (∃ v i, Value.binary .power (.int (-1)) (.int 4294967297) .empty = .ok v .empty ∧
        v.asInt? = some i ∧ i.toInt = -1) ∧
      (∃ v i, Value.binary .rshift l (.int 100) .empty = .ok v .empty ∧ v.asInt? = some i ∧
        i.toInt = -1) ∧
      (Builtin.call .abs { positional := [l] }).Raises .empty .overflowError ∧
      ∀ op : ArithOp, op.onInts? Int64.minValue (-1) = some (op.onInts Int64.minValue (-1)) := by
  intro l
  have hD := WordDivision.ofIntegers_roundsDown
  have hdivided := integer_arithmetic_is_exact hD (l := l) (r := .int (-1)) rfl rfl .empty
  have hthird := integer_arithmetic_is_exact hD (l := l) (r := .int 3) rfl rfl .empty
  have hpower := integer_arithmetic_is_exact hD (l := .int (-1)) (r := .int 4294967297) rfl rfl
    .empty
  have hshifted := integer_arithmetic_is_exact hD (l := l) (r := .int 100) rfl rfl .empty
  refine ⟨hD, ?_, ?_, ?_, ?_, ?_, ?_, hdivided.2⟩
  · refine (hdivided.1.raises_iff .floorDivide _ (by decide)).mpr (.overflow (z := 2 ^ 63) ?_ ?_)
    · decide +kernel
    · decide
  · exact hdivided.1.value .modulo 0 (by decide +kernel) (by decide)
  · exact hthird.1.value .floorDivide (-3074457345618258603) (by decide +kernel) (by decide)
  · refine hpower.1.value .power (-1) ?_ (by decide)
    exact congrArg some (Odd.neg_one_pow (by decide +kernel))
  · exact hshifted.1.value .rshift (-1) (by decide +kernel) (by decide)
  · exact (hdivided.1.abs_raises_iff _).mpr ⟨rfl, by decide⟩

end StackVM
