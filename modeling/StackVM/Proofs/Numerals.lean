/-
Integers read from text. A numeral is a sign, which may be absent, and a row of digits; `int` reads
a text that is a numeral between blanks, with underscores wherever one likes. Reading goes from left
to right and gives up at the first digit that takes the number out of the 64-bit range, so that it
never sees what stands after that digit.

* `Text.Stripped`, `Text.stripped_iff`: what is left without the blanks around it;
* `Numeral.Denotes`: the number that a numeral stands for, by place value;
* `Numeral.digits_ok_iff`, `Numeral.digits_overflow_iff`: **the run of the reader**;
* `Numeral.signed_ok_iff`, `Numeral.signed_overflow_iff`: the same with a sign;
* `int_reads_numerals`, `overflow_hides_malformed_rest`.
-/
import Mathlib.Data.List.TakeWhile
import Mathlib.Data.Nat.Digits.Lemmas
import StackVM.Builtin.Call
import StackVM.Proofs.Outcome

namespace StackVM

/-! ### Blanks -/

namespace Text

/-- The characters `w` are those of `cs` without the blanks at both ends. -/
structure Stripped (cs w : List Char) : Prop where
  blanks : ∃ u v, cs = u ++ w ++ v ∧ (∀ c ∈ u, isBlank c = true) ∧ ∀ c ∈ v, isBlank c = true
  first : ∀ c ∈ w.head?, isBlank c = false
  last : ∀ c ∈ w.getLast?, isBlank c = false

/-- Dropping goes over blanks and stops at what is none. -/
lemma dropWhile_isBlank_append {u w : List Char} (hu : ∀ c ∈ u, isBlank c = true)
    (hw : ∀ c ∈ w.head?, isBlank c = false) : (u ++ w).dropWhile isBlank = w := by
  rw [List.dropWhile_append_of_pos hu]
  cases w with
  | nil => rfl
  | cons c w => exact List.dropWhile_cons_of_neg (by simp [hw c rfl])

/-- No other text is left by `strip`. -/
lemma strip_eq_of_stripped {cs w : List Char} (h : Stripped cs w) : strip cs = w := by
  obtain ⟨u, v, rfl, hu, hv⟩ := h.blanks
  cases w with
  | nil =>
      have hall : ∀ c ∈ u ++ v, isBlank c = true := fun c hc =>
        (List.mem_append.mp hc).elim (hu c) (hv c)
      have hdrop : (u ++ v).dropWhile isBlank = [] := List.dropWhile_eq_nil_iff.mpr hall
      simp [strip, hdrop]
  | cons c w =>
      have hfirst : ((u ++ c :: w) ++ v).dropWhile isBlank = c :: w ++ v := by
        rw [List.append_assoc]
        exact dropWhile_isBlank_append hu (by simpa using h.first)
      have hlast : (v.reverse ++ (c :: w).reverse).dropWhile isBlank = (c :: w).reverse :=
        dropWhile_isBlank_append (by simpa using hv) (by
          rw [List.head?_reverse]
          exact h.last)
      rw [strip, hfirst, List.reverse_append, hlast, List.reverse_reverse]

/-- What is left of a text without its leading blanks does not start with one. -/
lemma isBlank_of_mem_head?_dropWhile (cs : List Char) {c : Char}
    (hc : c ∈ (cs.dropWhile isBlank).head?) : isBlank c = false := by
  have hnot := List.head?_dropWhile_not isBlank cs
  rw [Option.mem_def.mp hc] at hnot
  exact hnot

/-- What `strip` leaves has no blank at its ends. -/
lemma stripped_strip (cs : List Char) : Stripped cs (strip cs) := by
  have hsplit : cs.dropWhile isBlank =
      strip cs ++ ((cs.dropWhile isBlank).reverse.takeWhile isBlank).reverse := by
    rw [strip, ← List.reverse_append, List.takeWhile_append_dropWhile, List.reverse_reverse]
  refine ⟨⟨cs.takeWhile isBlank, ((cs.dropWhile isBlank).reverse.takeWhile isBlank).reverse,
    ?_, fun c hc => List.mem_takeWhile_imp hc, fun c hc => ?_⟩, fun c hc => ?_, fun c hc => ?_⟩
  · rw [List.append_assoc, ← hsplit, List.takeWhile_append_dropWhile]
  · exact List.mem_takeWhile_imp (List.mem_reverse.mp hc)
  · apply isBlank_of_mem_head?_dropWhile cs
    rw [hsplit, List.head?_append, Option.mem_def.mp hc]
    rfl
  · apply isBlank_of_mem_head?_dropWhile (cs.dropWhile isBlank).reverse
    rwa [strip, List.getLast?_reverse] at hc

/-- `strip` leaves what the text is without the blanks at both ends. -/
lemma stripped_iff {cs w : List Char} : Stripped cs w ↔ w = strip cs :=
  ⟨fun h => (strip_eq_of_stripped h).symm, fun h => h ▸ stripped_strip cs⟩

end Text

/-! ### Rows of digits -/

namespace Numeral

/-- What a digit stands for in the last place. -/
def digit (c : Char) : ℕ :=
  c.toNat - '0'.toNat

/-- What a row of digits stands for: each digit counts ten times what it would one place on. -/
def value (ds : List Char) : ℕ :=
  Nat.ofDigits 10 (ds.reverse.map digit)

/-- A row of digits, at least one. -/
def IsRow (ds : List Char) : Prop :=
  ds ≠ [] ∧ ∀ c ∈ ds, c.isDigit = true

lemma value_cons (c : Char) (ds : List Char) :
    value (c :: ds) = digit c * 10 ^ ds.length + value ds := by
  simp [value, Nat.ofDigits_append, Nat.add_comm, Nat.mul_comm]

/-- What digits stand for after those of the number `n`. -/
def after (n : ℕ) (ds : List Char) : ℕ :=
  n * 10 ^ ds.length + value ds

lemma after_nil (n : ℕ) : after n [] = n := by
  simp [after, value]

lemma after_zero (ds : List Char) : after 0 ds = value ds := by
  simp [after]

lemma after_cons (n : ℕ) (c : Char) (ds : List Char) :
    after n (c :: ds) = after (n * 10 + digit c) ds := by
  rw [after, after, value_cons, List.length_cons, pow_succ]
  ring

lemma le_after (n : ℕ) (ds : List Char) : n ≤ after n ds :=
  calc n = n * 1 := (Nat.mul_one n).symm
    _ ≤ n * 10 ^ ds.length := Nat.mul_le_mul_left n (Nat.one_le_pow _ _ (by decide))
    _ ≤ after n ds := Nat.le_add_right _ _

/-! ### The reader -/

lemma digits_cons {bound n : ℕ} {c : Char} (cs : List Char) (hc : c.isDigit = true) :
    digits bound n (c :: cs) =
      if bound < n * 10 + digit c then .error .overflow
      else digits bound (n * 10 + digit c) cs :=
  if_pos hc

lemma digits_cons_of_not {bound n : ℕ} {c : Char} (cs : List Char) (hc : ¬c.isDigit = true) :
    digits bound n (c :: cs) = .error .malformed :=
  if_neg hc

/-- **A run of the reader** gives a number if it sees digits only and the number stays in its
bound. -/
lemma digits_ok_iff {bound m : ℕ} (cs : List Char) : ∀ {n : ℕ}, n ≤ bound →
    (digits bound n cs = .ok m ↔
      (∀ c ∈ cs, c.isDigit = true) ∧ m = after n cs ∧ m ≤ bound) := by
  induction cs with
  | nil =>
      intro n hn
      rw [after_nil, digits, Except.ok.injEq]
      constructor
      · rintro rfl
        exact ⟨List.forall_mem_nil _, rfl, hn⟩
      · exact fun h => h.2.1.symm
  | cons c cs ih =>
      intro n hn
      by_cases hc : c.isDigit = true
      · rw [digits_cons cs hc, after_cons, List.forall_mem_cons]
        by_cases hover : bound < n * 10 + digit c
        · -- the digits that follow do not make the number smaller
          have hle := le_after (n * 10 + digit c) cs
          simp only [hover, if_true, reduceCtorEq, false_iff]
          omega
        · simp only [hover, if_false, hc, true_and]
          exact ih (Nat.le_of_not_lt hover)
      · rw [digits_cons_of_not cs hc]
        simp [hc]

/-- It gives up on a number out of its bound if digits at the start of the text take it there,
whatever stands after them. -/
lemma digits_overflow_iff {bound : ℕ} (cs : List Char) : ∀ {n : ℕ}, n ≤ bound →
    (digits bound n cs = .error .overflow ↔
      ∃ p, p <+: cs ∧ (∀ c ∈ p, c.isDigit = true) ∧ bound < after n p) := by
  induction cs with
  | nil =>
      intro n hn
      simpa [digits, after_nil] using hn
  | cons c cs ih =>
      intro n hn
      have hnil : ¬bound < after n [] := by simpa [after_nil] using hn
      by_cases hc : c.isDigit = true
      · rw [digits_cons cs hc]
        by_cases hover : bound < n * 10 + digit c
        · simp only [hover, if_true, true_iff]
          exact ⟨[c], ⟨cs, rfl⟩, by simpa using hc, by rwa [after_cons, after_nil]⟩
        · simp only [hover, if_false]
          rw [ih (Nat.le_of_not_lt hover)]
          constructor
          · rintro ⟨p, hp, hdigits, hbound⟩
            exact ⟨c :: p, (List.prefix_cons_inj c).mpr hp, List.forall_mem_cons.mpr ⟨hc, hdigits⟩,
              by rwa [after_cons]⟩
          · rintro ⟨p, hp, hdigits, hbound⟩
            obtain rfl | ⟨q, rfl, hq⟩ := List.prefix_cons_iff.mp hp
            · exact absurd hbound hnil
            · exact ⟨q, hq, (List.forall_mem_cons.mp hdigits).2, by rwa [← after_cons]⟩
      · rw [digits_cons_of_not cs hc]
        simp only [Except.error.injEq, reduceCtorEq, false_iff]
        rintro ⟨p, hp, hdigits, hbound⟩
        obtain rfl | ⟨q, rfl, -⟩ := List.prefix_cons_iff.mp hp
        · exact hnil hbound
        · exact hc (List.forall_mem_cons.mp hdigits).1

lemma unsigned_ok_iff {bound m : ℕ} {cs : List Char} :
    unsigned bound cs = .ok m ↔ IsRow cs ∧ m = value cs ∧ m ≤ bound := by
  cases cs with
  | nil => simp [unsigned, IsRow]
  | cons c cs =>
      rw [unsigned, digits_ok_iff _ (Nat.zero_le bound), after_zero, IsRow]
      · simp
      · simp

lemma unsigned_overflow_iff {bound : ℕ} {cs : List Char} :
    unsigned bound cs = .error .overflow ↔ ∃ p, p <+: cs ∧ IsRow p ∧ bound < value p := by
  cases cs with
  | nil => simp [unsigned, IsRow]
  | cons c cs =>
      rw [unsigned, digits_overflow_iff _ (Nat.zero_le bound)]
      · simp only [after_zero, IsRow]
        refine exists_congr fun p => and_congr_right fun hp => ?_
        constructor
        · refine fun ⟨hdigits, hbound⟩ => ⟨⟨?_, hdigits⟩, hbound⟩
          rintro rfl
          exact absurd hbound (Nat.not_lt_zero _)
        · exact fun ⟨hrow, hbound⟩ => ⟨hrow.2, hbound⟩
      · simp

/-! ### Signs -/

/-- What stands before the digits. -/
inductive Sign where
  | absent
  | plus
  | minus
deriving DecidableEq, Repr

namespace Sign

/-- How a sign is written. -/
def text : Sign → List Char
  | absent => []
  | plus => ['+']
  | minus => ['-']

/-- The number with a sign. -/
def apply : Sign → ℕ → ℤ
  | absent, n => n
  | plus, n => n
  | minus, n => -n

/-- The greatest number that fits with a sign. -/
def bound : Sign → ℕ
  | absent => 0x7fffffffffffffff
  | plus => 0x7fffffffffffffff
  | minus => 0x8000000000000000

/-- No sign may be taken for absent where one is written. -/
def Leads (sign : Sign) (cs : List Char) : Prop :=
  sign = absent → ∀ c ∈ cs.head?, c ≠ '-' ∧ c ≠ '+'

end Sign

/-- A number in the 64-bit range. -/
def Fits (n : ℤ) : Prop :=
  -0x8000000000000000 ≤ n ∧ n < 0x8000000000000000

/-- The text is a numeral for the number: a sign, which may be absent, and a row of digits. -/
def Denotes (t : List Char) (n : ℤ) : Prop :=
  ∃ (sign : Sign) (ds : List Char), t = sign.text ++ ds ∧ IsRow ds ∧ n = sign.apply (value ds)

lemma fits_apply_iff (sign : Sign) (n : ℕ) : Fits (sign.apply n) ↔ n ≤ sign.bound := by
  cases sign <;> simp only [Fits, Sign.apply, Sign.bound] <;> omega

/-- A text starts with one sign only. -/
lemma exists_leads (t : List Char) :
    ∃ (sign : Sign) (cs : List Char), t = sign.text ++ cs ∧ sign.Leads cs := by
  cases t with
  | nil => exact ⟨.absent, [], rfl, by simp [Sign.Leads]⟩
  | cons c cs =>
      by_cases hminus : c = '-'
      · exact ⟨.minus, cs, by simp [hminus, Sign.text], by simp [Sign.Leads]⟩
      · by_cases hplus : c = '+'
        · exact ⟨.plus, cs, by simp [hplus, Sign.text], by simp [Sign.Leads]⟩
        · exact ⟨.absent, c :: cs, rfl, by simp [Sign.Leads, hminus, hplus]⟩

lemma signed_append {sign : Sign} {cs : List Char} (h : sign.Leads cs) :
    signed (sign.text ++ cs) =
      (unsigned sign.bound cs).map fun n => Int64.ofInt (sign.apply n) := by
  cases sign with
  | minus =>
      simp only [Sign.text, List.cons_append, List.nil_append, signed, Sign.apply, Sign.bound]
      cases unsigned 0x8000000000000000 cs <;> rfl
  | plus => simp [Sign.text, signed, Sign.apply, Sign.bound, Int64.ofInt_eq_ofNat]
  | absent =>
      simp only [Sign.text, List.nil_append, Sign.apply, Int64.ofInt_eq_ofNat, Sign.bound]
      cases cs with
      | nil => rfl
      | cons c cs =>
          obtain ⟨hminus, hplus⟩ := h rfl c rfl
          rw [signed]
          · simp [hminus]
          · simp [hplus]

/-- A row of digits after a sign stands at the start of a text only after the sign that leads it. -/
lemma sign_eq_of_append_prefix {sign sign' : Sign} {cs ds : List Char} (h : sign.Leads cs)
    (hds : IsRow ds) (hpre : sign'.text ++ ds <+: sign.text ++ cs) : sign' = sign := by
  obtain ⟨rest, hrest⟩ := hpre
  obtain ⟨d, ds, rfl⟩ := List.exists_cons_of_ne_nil hds.1
  have hd : '-' ≠ d ∧ '+' ≠ d := by
    constructor <;> rintro rfl <;> exact absurd (hds.2 _ List.mem_cons_self) (by decide)
  -- the first characters are the same
  have hhead := congrArg List.head? hrest.symm
  clear hrest
  cases sign' <;> cases sign <;> simp_all [Sign.text, Sign.Leads]

/-- The numerals at the start of a text. -/
lemma denotes_prefix_iff {sign : Sign} {cs : List Char} (h : sign.Leads cs) {p : List Char}
    {n : ℤ} : p <+: sign.text ++ cs ∧ Denotes p n ↔
      ∃ ds, p = sign.text ++ ds ∧ ds <+: cs ∧ IsRow ds ∧ n = sign.apply (value ds) := by
  constructor
  · rintro ⟨hpre, sign', ds, rfl, hrow, rfl⟩
    obtain rfl := sign_eq_of_append_prefix h hrow hpre
    exact ⟨ds, rfl, (List.prefix_append_right_inj _).mp hpre, hrow, rfl⟩
  · rintro ⟨ds, rfl, hpre, hrow, rfl⟩
    exact ⟨(List.prefix_append_right_inj _).mpr hpre, sign, ds, rfl, hrow, rfl⟩

lemma denotes_append_iff {sign : Sign} {cs : List Char} (h : sign.Leads cs) {n : ℤ} :
    Denotes (sign.text ++ cs) n ↔ IsRow cs ∧ n = sign.apply (value cs) := by
  constructor
  · intro hn
    obtain ⟨ds, hds, -, hrow⟩ := (denotes_prefix_iff h).mp ⟨List.prefix_rfl, hn⟩
    rwa [List.append_cancel_left hds]
  · exact fun hrow => ⟨sign, cs, rfl, hrow⟩

/-- **A text is read** as a number if it is a numeral for it and it fits. -/
lemma signed_ok_iff {t : List Char} {i : Int64} :
    signed t = .ok i ↔ ∃ n, Denotes t n ∧ Fits n ∧ i = Int64.ofInt n := by
  obtain ⟨sign, cs, rfl, hleads⟩ := exists_leads t
  simp only [signed_append hleads, denotes_append_iff hleads]
  constructor
  · intro h
    cases hread : unsigned sign.bound cs with
    | error e =>
        rw [hread] at h
        cases h
    | ok m =>
        obtain ⟨hrow, rfl, hbound⟩ := unsigned_ok_iff.mp hread
        rw [hread] at h
        cases h
        exact ⟨_, ⟨hrow, rfl⟩, (fits_apply_iff sign _).mpr hbound, rfl⟩
  · rintro ⟨n, ⟨hrow, rfl⟩, hfits, rfl⟩
    rw [unsigned_ok_iff.mpr ⟨hrow, rfl, (fits_apply_iff sign _).mp hfits⟩]
    rfl

/-- Reading overflows if a numeral at the start of the text does not fit. -/
lemma signed_overflow_iff {t : List Char} :
    signed t = .error .overflow ↔ ∃ p, p <+: t ∧ ∃ n, Denotes p n ∧ ¬Fits n := by
  obtain ⟨sign, cs, rfl, hleads⟩ := exists_leads t
  have hmap : signed (sign.text ++ cs) = .error .overflow ↔
      unsigned sign.bound cs = .error .overflow := by
    rw [signed_append hleads]
    cases unsigned sign.bound cs <;> simp [Except.map]
  rw [hmap, unsigned_overflow_iff]
  constructor
  · rintro ⟨ds, hpre, hrow, hbound⟩
    obtain ⟨hp, hn⟩ := (denotes_prefix_iff hleads).mpr ⟨ds, rfl, hpre, hrow, rfl⟩
    exact ⟨_, hp, _, hn, fun hfits => Nat.not_le.mpr hbound ((fits_apply_iff sign _).mp hfits)⟩
  · rintro ⟨p, hp, n, hn, hfits⟩
    obtain ⟨ds, rfl, hpre, hrow, rfl⟩ := (denotes_prefix_iff hleads).mp ⟨hp, hn⟩
    exact ⟨ds, hpre, hrow, Nat.not_le.mp fun hle => hfits ((fits_apply_iff sign _).mpr hle)⟩

/-- A numeral that goes on after one that does not fit does not fit. -/
lemma not_fits_of_prefix {p t : List Char} {m n : ℤ} (hp : p <+: t) (hm : Denotes p m)
    (hfits : ¬Fits m) (hn : Denotes t n) : ¬Fits n := by
  intro hfit
  have hok := signed_ok_iff.mpr ⟨n, hn, hfit, rfl⟩
  rw [signed_overflow_iff.mpr ⟨p, hp, m, hm, hfits⟩] at hok
  cases hok

end Numeral

/-! ### The builtin function -/

/-- The text that `int` looks at. -/
def Numeral.trimmed (s : String) : List Char :=
  (Text.strip s.toList).filter (· ≠ '_')

/-- A numeral at the start of the text, which may be all of it, does not fit. -/
def Numeral.Overruns (t : List Char) : Prop :=
  ∃ p, p <+: t ∧ ∃ n, Denotes p n ∧ ¬Fits n

/-- A numeral overruns if it does not fit. -/
lemma Numeral.overruns_iff {t : List Char} {n : ℤ} (hn : Denotes t n) :
    Overruns t ↔ ¬Fits n :=
  ⟨fun ⟨_, hp, _, hm, hfits⟩ => not_fits_of_prefix hp hm hfits hn,
    fun hfits => ⟨t, List.prefix_rfl, n, hn, hfits⟩⟩

namespace Builtin

variable {ident : Ident} {s : String} {h h' : Heap}

lemma evaluate_int_str : Builtin.int.evaluate ⟨[.str ident s], []⟩ h =
    Eval.ofExcept (toInt (.str ident s)) h :=
  rfl

/-- `int` returns the number that the text is a numeral for, if it fits. -/
lemma evaluate_int_ok_iff {r : Value} :
    Builtin.int.evaluate ⟨[.str ident s], []⟩ h = .ok r h' ↔
      ∃ n, Numeral.Denotes (Numeral.trimmed s) n ∧ Numeral.Fits n ∧
        r = .int (Int64.ofInt n) ∧ h' = h := by
  rw [evaluate_int_str, toInt]
  cases hread : Numeral.read s with
  | ok i =>
      obtain ⟨n, hn, hfits, rfl⟩ := Numeral.signed_ok_iff.mp hread
      constructor
      · intro hr
        cases hr
        exact ⟨n, hn, hfits, rfl, rfl⟩
      · rintro ⟨m, hm, hfitsm, rfl, rfl⟩
        have hsame := Numeral.signed_ok_iff.mpr ⟨m, hm, hfitsm, rfl⟩
        rw [← Except.ok.inj (hread.symm.trans hsame)]
        rfl
  | error e =>
      constructor
      · intro hr
        cases e <;> cases hr
      · rintro ⟨n, hn, hfits, -, -⟩
        have hok := Numeral.signed_ok_iff.mpr ⟨n, hn, hfits, rfl⟩
        cases hread.symm.trans hok

/-- It fails on every other text, and which failure it is depends on whether the text overruns. -/
lemma evaluate_int_error_iff {c : Cause} :
    Builtin.int.evaluate ⟨[.str ident s], []⟩ h = .error c h' ↔
      h' = h ∧ (Numeral.Overruns (Numeral.trimmed s) ∧ c = .intOverflow ∨
        ¬Numeral.Overruns (Numeral.trimmed s) ∧
          (∀ n, ¬Numeral.Denotes (Numeral.trimmed s) n) ∧ c = .badIntNumeral s) := by
  rw [evaluate_int_str, toInt]
  have hoverruns : Numeral.Overruns (Numeral.trimmed s) ↔ Numeral.read s = .error .overflow :=
    Numeral.signed_overflow_iff.symm
  cases hread : Numeral.read s with
  | ok i =>
      obtain ⟨n, hn, -, -⟩ := Numeral.signed_ok_iff.mp hread
      simp only [hoverruns, hread, reduceCtorEq, false_and, not_false_eq_true, true_and, false_or]
      constructor
      · intro hr
        cases hr
      · exact fun hr => absurd hn (hr.2.1 n)
  | error e =>
      cases e with
      | overflow =>
          simp only [hoverruns, hread, true_and, not_true_eq_false, false_and, or_false]
          constructor
          · intro hr
            cases hr
            exact ⟨rfl, rfl⟩
          · rintro ⟨rfl, rfl⟩
            rfl
      | malformed =>
          have hnone : ∀ n, ¬Numeral.Denotes (Numeral.trimmed s) n := by
            intro n hn
            by_cases hfits : Numeral.Fits n
            · cases hread.symm.trans (Numeral.signed_ok_iff.mpr ⟨n, hn, hfits, rfl⟩)
            · cases hread.symm.trans (hoverruns.mp ((Numeral.overruns_iff hn).mpr hfits))
          simp only [hoverruns, hread, Except.error.injEq, reduceCtorEq, false_and, false_or,
            not_false_eq_true, true_and]
          constructor
          · intro hr
            cases hr
            exact ⟨rfl, hnone, rfl⟩
          · rintro ⟨rfl, -, rfl⟩
            rfl

end Builtin

/-- **`int` reads numerals.** It looks at a text without the blanks around it and without its
underscores. If that is a numeral for a number that fits in 64 bits, it returns the number. Of the
texts that it refuses, those that start with a numeral that does not fit overflow, and all others
are bad literals. So, where no such numeral stands before something that makes the text none, the
texts that overflow are the numerals that do not fit, and the bad literals are no numerals. -/
theorem int_reads_numerals (ident : Ident) (s : String) (h : Heap) :
    (∃ w, (∀ u, Text.Stripped s.toList u ↔ u = w) ∧ Numeral.trimmed s = w.filter (· ≠ '_')) ∧
    (∀ r h', Builtin.int.evaluate ⟨[.str ident s], []⟩ h = .ok r h' ↔
      ∃ n, Numeral.Denotes (Numeral.trimmed s) n ∧ Numeral.Fits n ∧
        r = .int (Int64.ofInt n) ∧ h' = h) ∧
    (∀ c h', Builtin.int.evaluate ⟨[.str ident s], []⟩ h = .error c h' ↔
      h' = h ∧ (Numeral.Overruns (Numeral.trimmed s) ∧ c = .intOverflow ∨
        ¬Numeral.Overruns (Numeral.trimmed s) ∧
          (∀ n, ¬Numeral.Denotes (Numeral.trimmed s) n) ∧ c = .badIntNumeral s)) ∧
    ((Numeral.Overruns (Numeral.trimmed s) → ∃ n, Numeral.Denotes (Numeral.trimmed s) n) →
      (Builtin.int.evaluate ⟨[.str ident s], []⟩ h = .error .intOverflow h ↔
        ∃ n, Numeral.Denotes (Numeral.trimmed s) n ∧ ¬Numeral.Fits n) ∧
      (Builtin.int.evaluate ⟨[.str ident s], []⟩ h = .error (.badIntNumeral s) h ↔
        ∀ n, ¬Numeral.Denotes (Numeral.trimmed s) n)) ∧
    Cause.intOverflow.cls = .overflowError ∧ (Cause.badIntNumeral s).cls = .valueError := by
  refine ⟨⟨_, fun u => Text.stripped_iff, rfl⟩, fun r h' => Builtin.evaluate_int_ok_iff,
    fun c h' => Builtin.evaluate_int_error_iff, fun hwhole => ⟨?_, ?_⟩, rfl, rfl⟩
  · rw [Builtin.evaluate_int_error_iff]
    simp only [true_and, and_true, reduceCtorEq, and_false, or_false]
    constructor
    · intro hoverruns
      obtain ⟨n, hn⟩ := hwhole hoverruns
      exact ⟨n, hn, (Numeral.overruns_iff hn).mp hoverruns⟩
    · exact fun ⟨n, hn, hfits⟩ => (Numeral.overruns_iff hn).mpr hfits
  · rw [Builtin.evaluate_int_error_iff]
    simp only [true_and, and_true, reduceCtorEq, and_false, false_or, and_iff_right_iff_imp]
    intro hnone hoverruns
    obtain ⟨n, hn⟩ := hwhole hoverruns
    exact hnone n hn

/-- A letter after twenty nines is not seen: the text is no numeral, and reading it overflows. -/
theorem overflow_hides_malformed_rest :
    (∀ n, ¬Numeral.Denotes (Numeral.trimmed "99999999999999999999x") n) ∧
    Builtin.int.evaluate ⟨[.str (.made 0) "99999999999999999999x"], []⟩ .empty =
      .error .intOverflow .empty := by
  refine ⟨?_, by rfl⟩
  rintro n ⟨sign, ds, htext, ⟨-, hdigits⟩, -⟩
  have hletter : 'x' ∈ sign.text ++ ds := htext ▸ by decide
  obtain hsign | hdigit := List.mem_append.mp hletter
  · cases sign <;> simp [Numeral.Sign.text] at hsign
  · exact absurd (hdigits 'x' hdigit) (by decide)

end StackVM
