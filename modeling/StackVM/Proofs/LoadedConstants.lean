/-
Constants are loaded back. Equal constants share one entry of the pool, and equality compares
floats as numbers; so a tuple may be loaded back as one that was loaded before and has another
sign at a zero.

* `Const.unsignZeros`: a constant with every zero in it made positive;
* `Const.same_iff`: constants are the same if they are identical but for the signs of zeros;
* `Assembler.loadedAs`: the constant that stands for another in the pool;
* `Value.const?`: the constant that a value shows;
* `constants_load_back`: **what is loaded** in place of a constant.
-/
import Mathlib
import StackVM.Proofs.Closures
import StackVM.Proofs.Tables

namespace StackVM

/-! ### Signs of zeros -/

namespace Double

/-- The number, with a zero made positive. -/
def unsignZero (d : Double) : Double :=
  if d.isZero then zero else d

open Float.Model in
/-- The native number has the same bits, a not-a-number apart. -/
lemma toBits_toFloat {d : Double} (h : d.toFloat ≠ Float.nan) : d.toFloat.toBits = d.bits := by
  have hpack : d.toFloat.toBits.toBitVec =
      if @UnpackedFloat.isNaNBits .binary64 d.bits.toBitVec then UnpackedFloat.packedNaN .binary64
      else d.bits.toBitVec := UnpackedFloat.pack_unpack _
  split at hpack
  · exact absurd (Float.toBits_inj.mp (UInt64.toBitVec_inj.mp hpack)) h
  · exact UInt64.toBitVec_inj.mp hpack

lemma eq_self_iff {d : Double} : d.eq d = true ↔ d.toFloat ≠ Float.nan :=
  Float.beq_self_iff

lemma isZero_iff {d : Double} : d.isZero = true ↔ d = ⟨0⟩ ∨ d = ⟨0x8000000000000000⟩ := by
  constructor
  · intro h
    have hlow : d.bits.toNat % 2 ^ 63 = 0 := by
      rw [isZero, beq_iff_eq] at h
      have hbits := congrArg UInt64.toNat h
      rwa [UInt64.toNat_and, show (0x7fffffffffffffff : UInt64).toNat = 2 ^ 63 - 1 from rfl,
        Nat.and_two_pow_sub_one_eq_mod] at hbits
    have hlt := d.bits.toNat_lt
    obtain ⟨bits⟩ := d
    simp only [mk.injEq, ← UInt64.toNat_inj] at hlow hlt ⊢
    have hpositive : (0 : UInt64).toNat = 0 := rfl
    have hnegative : (0x8000000000000000 : UInt64).toNat = 2 ^ 63 := rfl
    omega
  · rintro (rfl | rfl) <;> decide

lemma isZero_unsignZero (d : Double) : d.unsignZero.isZero = d.isZero := by
  rw [unsignZero]
  split
  next h =>
    rw [h]
    decide
  next => rfl

/-- The native zeros come from zeros. -/
lemma isZero_of_toFloat {d : Double} (hd : d.toFloat ≠ Float.nan)
    (h : d.toFloat = 0 ∨ d.toFloat = -0) : d.isZero = true := by
  have hbits := toBits_toFloat hd
  obtain ⟨bits⟩ := d
  rcases h with h | h
  · rw [h] at hbits
    subst hbits
    decide
  · rw [h] at hbits
    subst hbits
    decide

/-- Equal numbers are identical, or zeros. -/
lemma eq_or_isZero_of_eq {a b : Double} (h : a.eq b = true) :
    a = b ∨ a.isZero = true ∧ b.isZero = true := by
  obtain ⟨ha, hb, hsame | ⟨ha₀, hb₀⟩ | ⟨ha₀, hb₀⟩⟩ := Float.beq_iff_ne_nan_and_eq.mp h
  · have hbits : a.bits = b.bits := by rw [← toBits_toFloat ha, hsame, toBits_toFloat hb]
    exact .inl (congrArg mk hbits)
  · exact .inr ⟨isZero_of_toFloat ha (.inl ha₀), isZero_of_toFloat hb (.inr hb₀)⟩
  · exact .inr ⟨isZero_of_toFloat ha (.inr ha₀), isZero_of_toFloat hb (.inl hb₀)⟩

lemma eq_of_isZero {a b : Double} (ha : a.isZero = true) (hb : b.isZero = true) :
    a.eq b = true := by
  rcases isZero_iff.mp ha with rfl | rfl <;> rcases isZero_iff.mp hb with rfl | rfl <;> decide

/-- **Numeric equality** is identity but for the sign of zero; a not-a-number is not equal to
itself. -/
lemma eq_iff {a b : Double} :
    a.eq b = true ↔ a.unsignZero = b.unsignZero ∧ a.eq a = true := by
  constructor
  · intro h
    refine ⟨?_, eq_self_iff.mpr (Float.beq_iff_ne_nan_and_eq.mp h).1⟩
    rcases eq_or_isZero_of_eq h with rfl | ⟨ha, hb⟩
    · rfl
    · rw [unsignZero, unsignZero, if_pos ha, if_pos hb]
  · rintro ⟨hunsigned, hself⟩
    have hzero : a.isZero = b.isZero := by
      rw [← isZero_unsignZero a, hunsigned, isZero_unsignZero]
    by_cases ha : a.isZero = true
    · exact eq_of_isZero ha (hzero ▸ ha)
    · rw [unsignZero, unsignZero, if_neg ha, if_neg (hzero ▸ ha)] at hunsigned
      exact hunsigned ▸ hself

end Double

mutual

/-- The constant, with every zero in it made positive. -/
def Const.unsignZeros : Const → Const
  | .none => .none
  | .bool b => .bool b
  | .int i => .int i
  | .float d => .float d.unsignZero
  | .str s => .str s
  | .tuple xs => .tuple (Const.unsignAll xs)
  | .code c => .code (Code.unsignZeros c)
termination_by structural c => c

/-- Constants, with every zero in them made positive. -/
def Const.unsignAll : List Const → List Const
  | [] => []
  | x :: xs => Const.unsignZeros x :: Const.unsignAll xs
termination_by structural cs => cs

/-- A constant pool, with every zero in it made positive. -/
def Const.unsignPool : Array Const → Array Const
  | ⟨xs⟩ => ⟨Const.unsignAll xs⟩
termination_by structural cs => cs

/-- A code object, with every zero in it made positive. -/
def Code.unsignZeros : Code → Code
  | ⟨n, b, cs, ns, vs, ce, fr, a, k, f, s⟩ =>
    ⟨n, b, Const.unsignPool cs, ns, vs, ce, fr, a, k, f, s⟩
termination_by structural c => c

end

mutual

/-- **The equality of constants** is identity but for the signs of zeros. A constant with a
not-a-number in it is not the same as itself. -/
lemma Const.same_iff : ∀ a b : Const,
    a.same b = true ↔ a.unsignZeros = b.unsignZeros ∧ a.same a = true
  | .none, b => by cases b <;> simp [Const.same, Const.unsignZeros]
  | .bool x, b => by cases b <;> simp [Const.same, Const.unsignZeros]
  | .int i, b => by cases b <;> simp [Const.same, Const.unsignZeros]
  | .float d, b => by
      cases b with
      | float d' => simpa [Const.same, Const.unsignZeros] using Double.eq_iff
      | _ => simp [Const.same, Const.unsignZeros]
  | .str s, b => by cases b <;> simp [Const.same, Const.unsignZeros]
  | .tuple xs, b => by
      cases b with
      | tuple ys => simpa [Const.same, Const.unsignZeros] using Const.sameAll_iff xs ys
      | _ => simp [Const.same, Const.unsignZeros]
  | .code c, b => by
      cases b with
      | code c' => simpa [Const.same, Const.unsignZeros] using Code.same_iff c c'
      | _ => simp [Const.same, Const.unsignZeros]

lemma Const.sameAll_iff : ∀ xs ys : List Const,
    Const.sameAll xs ys = true ↔
      Const.unsignAll xs = Const.unsignAll ys ∧ Const.sameAll xs xs = true
  | [], ys => by cases ys <;> simp [Const.sameAll, Const.unsignAll]
  | x :: xs, ys => by
      cases ys with
      | nil => simp [Const.sameAll, Const.unsignAll]
      | cons y ys =>
          simp only [Const.sameAll, Const.unsignAll, Bool.and_eq_true, Const.same_iff x y,
            Const.sameAll_iff xs ys, List.cons.injEq]
          tauto

lemma Code.same_iff : ∀ a b : Code,
    a.same b = true ↔ a.unsignZeros = b.unsignZeros ∧ a.same a = true
  | ⟨_, _, ⟨consts⟩, _, _, _, _, _, _, _, _⟩, ⟨_, _, ⟨consts'⟩, _, _, _, _, _, _, _, _⟩ => by
      simp only [Code.same, Code.unsignZeros, Const.samePool, Const.unsignPool,
        Const.sameAll_iff consts consts', Bool.and_eq_true, beq_iff_eq, Code.mk.injEq,
        Array.mk.injEq]
      tauto

end

lemma Const.same_trans {a b c : Const} (hab : a.same b = true) (hbc : b.same c = true) :
    a.same c = true := by
  obtain ⟨h, hself⟩ := (same_iff a b).mp hab
  exact (same_iff a c).mpr ⟨h.trans ((same_iff b c).mp hbc).1, hself⟩

/-! ### The pool -/

namespace Assembler

/-- The constant that stands for `k` in a pool after others: the first of them that is the same,
if it is shared. -/
def loadedAs (earlier : List Const) (k : Const) : Const :=
  if isShared k then (earlier.find? (·.same k)).getD k else k

/-- Only the first one that is the same matters. -/
lemma loadedAs_congr {earlier earlier' : List Const} {k : Const}
    (h : earlier.find? (·.same k) = earlier'.find? (·.same k)) :
    loadedAs earlier k = loadedAs earlier' k := by
  rw [loadedAs, loadedAs, h]

/-- What stands for a constant differs from it in the signs of zeros at most. -/
lemma unsignZeros_loadedAs (earlier : List Const) (k : Const) :
    (loadedAs earlier k).unsignZeros = k.unsignZeros := by
  rw [loadedAs]
  split
  · cases hfound : earlier.find? (·.same k) with
    | none => rfl
    | some k' =>
        have hsame := List.find?_some hfound
        exact ((Const.same_iff k' k).mp hsame).1
  · rfl

/-- Only tuples are loaded as others. -/
lemma loadedAs_of_not_tuple (earlier : List Const) {k : Const} (hk : ∀ items, k ≠ .tuple items) :
    loadedAs earlier k = k := by
  have hzeros := unsignZeros_loadedAs earlier k
  cases k with
  | float d => rfl
  | code c => rfl
  | tuple items => exact absurd rfl (hk items)
  | _ =>
      -- there is no float in it
      generalize loadedAs earlier _ = k' at hzeros
      cases k' <;> simp_all [Const.unsignZeros]

/-- A constant is where its index says. -/
lemma getElem?_internConst (pool : Array Const) (k : Const) :
    (internConst pool k).2[(internConst pool k).1]? = some (loadedAs pool.toList k) := by
  obtain ⟨ks⟩ := pool
  rw [internConst, loadedAs, List.findIdx?_toArray]
  by_cases hshared : isShared k = true
  · rw [if_pos hshared, if_pos hshared]
    cases hfound : ks.findIdx? (fun k' => k'.same k) with
    | none =>
        have hnone : ks.find? (fun k' => k'.same k) = none := by
          simpa [List.findIdx?_eq_none_iff, List.find?_eq_none] using hfound
        simp [hnone]
    | some j =>
        obtain ⟨hlt, hj, hfirst⟩ := List.findIdx?_eq_some_iff_getElem.mp hfound
        have hfind : ks.find? (fun k' => k'.same k) = some ks[j] := by
          refine List.find?_eq_some_iff_getElem.mpr ⟨hj, j, hlt, rfl, ?_⟩
          intro l hl
          simpa using hfirst l hl
        simp [hfind, hlt]
  · rw [if_neg hshared, if_neg hshared]
    simp

/-- A pool finds what all the constants put into it would. -/
lemma find?_internConst (pool : Array Const) (k c : Const) :
    (internConst pool k).2.toList.find? (·.same c) =
      (pool.toList ++ [k]).find? (·.same c) := by
  obtain ⟨ks⟩ := pool
  rw [internConst, List.findIdx?_toArray]
  split
  next j hj =>
    rw [List.find?_append]
    cases hfind : ks.find? (·.same c) with
    | some k' => rfl
    | none =>
        -- `k` is in the pool already as a constant that would be the same as `c` too
        have hnew : k.same c = false := by
          by_contra hsame
          rw [Bool.not_eq_false] at hsame
          split at hj
          · obtain ⟨hlt, hk, -⟩ := List.findIdx?_eq_some_iff_getElem.mp hj
            have hnone := List.find?_eq_none.mp hfind _ (List.getElem_mem hlt)
            exact hnone (Const.same_trans hk hsame)
          · cases hj
        simp [hnew]
  next => simp

/-- **The pool after directives** finds what all the constants that they load would. -/
lemma find?_consts_run (a : Assembler) (ds : List Directive) (c : Const) :
    (a.run ds).consts.toList.find? (·.same c) =
      (a.consts.toList ++ ds.filterMap Directive.const?).find? (·.same c) := by
  induction ds generalizing a with
  | nil => simp [run]
  | cons d ds ih =>
      have hrun : (a.run (d :: ds)).consts.toList.find? (·.same c) = _ := ih (a.apply d)
      rw [hrun, consts_apply]
      cases hd : d.const? with
      | none => rw [List.filterMap_cons_none hd, Option.elim_none]
      | some k =>
          rw [List.filterMap_cons_some hd, Option.elim_some, List.find?_append,
            find?_internConst, ← List.find?_append, List.append_assoc, List.singleton_append]

end Assembler

/-- The constant in the pool of a code object at the index of one that was loaded. -/
lemma getElem?_consts_of_assemble {name : String} {before after : List Directive} {k : Const}
    {c : Code} (h : assemble name (before ++ .const k :: after) = .ok c) :
    c.consts[(Assembler.internConst (Assembler.run { name } before).consts k).1]? =
      some (Assembler.loadedAs (before.filterMap Directive.const?) k) := by
  obtain ⟨-, -, htables⟩ := Assembler.build_ok h
  have hconsts : c.consts = (Assembler.run { name } (before ++ .const k :: after)).consts :=
    congrArg Code.consts htables
  obtain ⟨later, hlater⟩ :=
    (Assembler.extends_run_of_append { name } before (.const k) after).consts
  rw [Assembler.consts_apply, Directive.const?, Option.elim_some] at hlater
  have hinterned := Assembler.getElem?_internConst (Assembler.run { name } before).consts k
  have hlt := (Array.getElem?_eq_some_iff.mp hinterned).1
  have hloaded := Assembler.loadedAs_congr (Assembler.find?_consts_run { name } before k)
  rw [hconsts, ← Array.getElem?_toList, ← hlater, List.getElem?_append_left hlt,
    Array.getElem?_toList]
  exact hinterned.trans (congrArg some hloaded)

/-! ### Values -/

mutual

/-- The constant that a value shows, whatever its identity is. -/
def Value.const? : Value → Option Const
  | .none => some .none
  | .bool b => some (.bool b)
  | .int i => some (.int i)
  | .float d => some (.float d)
  | .str _ s => some (.str s)
  | .tuple _ items => (Value.consts? items).map .tuple
  | .code c => some (.code c.code)
  | _ => Option.none
termination_by structural v => v

/-- The constants that values show. -/
def Value.consts? : List Value → Option (List Const)
  | [] => some []
  | v :: vs => (Value.const? v).bind fun c => (Value.consts? vs).map (c :: ·)
termination_by structural vs => vs

end

mutual

/-- **A constant is loaded** as a value that shows it. -/
lemma Const.load_shows (owner : Ident) (path : List Nat) : ∀ (c : Const) (h : Heap),
    ∃ v h', c.load owner path h = .ok v h' ∧ v.const? = some c
  | .none, h | .bool _, h | .int _, h | .float _, h | .str _, h | .code _, h => ⟨_, h, rfl, rfl⟩
  | .tuple items, h => by
      obtain ⟨vs, h', hload, hshows⟩ := Const.loadAll_shows owner path 0 items h
      exact ⟨.tuple (.made h'.idents) vs, _, bind_of_ok hload, by rw [Value.const?, hshows]; rfl⟩

lemma Const.loadAll_shows (owner : Ident) (path : List Nat) (i : Nat) :
    ∀ (cs : List Const) (h : Heap),
      ∃ vs h', Const.loadAll owner path i cs h = .ok vs h' ∧ Value.consts? vs = some cs
  | [], h => ⟨[], h, rfl, rfl⟩
  | c :: cs, h => by
      obtain ⟨v, h₁, hload, hshows⟩ := Const.load_shows owner (i :: path) c h
      obtain ⟨vs, h₂, hrest, hshows'⟩ := Const.loadAll_shows owner path (i + 1) cs h₁
      refine ⟨v :: vs, h₂, ?_, by rw [Value.consts?, hshows, hshows']; rfl⟩
      rw [Const.loadAll, bind_of_ok hload, bind_of_ok hrest]
      rfl

end

/-- An instruction that loads a constant pushes a value that shows it. -/
lemma Exec.loadConst_run (code : CodeObject) {i : Instruction} {k : Const} {m : Machine} {f : Frame}
    {below : List Frame} (hopcode : i.opcode = some .loadConst) (hoperand : i.operand = .const k)
    (hf : m.frames = f :: below) :
    ∃ v m', execute code i m = .ok none m' ∧ m'.frames = f.push v :: below ∧
      v.const? = some k := by
  obtain ⟨v, h', hload, hshows⟩ := k.load_shows code.ident [i.arg] m.heap
  have hpush := pushResult_run hf hload
  refine ⟨v, Machine.withTop { m with heap := h' } (f.push v), ?_, ?_, hshows⟩
  · have hperform : perform code i .loadConst m =
        .ok () (Machine.withTop { m with heap := h' } (f.push v)) := by
      rw [perform, hoperand]
      exact hpush
    rw [execute, hopcode]
    exact bind_of_ok hperform
  · exact Machine.frames_withTop (m := { m with heap := h' }) hf _

/-- **Constants are loaded back.** Let directives give the code object `c`, and let one of them load
the constant `k`. The instruction is decoded to an entry `k'` of the pool, and it pushes a value
that shows `k'`. This is `k`, unless `k` is a tuple that has been loaded before with other signs of
zeros; then it is the first constant loaded that is the same as `k` in numbers. So `k'` and `k` are
identical but for the signs of zeros.

An argument has 32 bits: an index beyond those becomes the last one that it can hold. -/
theorem constants_load_back {name : String} {before after : List Directive} {k : Const} {c : Code}
    (h : assemble name (before ++ .const k :: after) = .ok c) :
    let a := Assembler.run { name } before
    let index := (Assembler.internConst a.consts k).1
    ∃ i k', c.decode a.offset = .ok i ∧ i.opcode = some .loadConst ∧ i.operand = .const k' ∧
      c.consts[min index (UInt32.size - 1)]? = some k' ∧
      (∀ (code : CodeObject) (m : Machine) (f : Frame) (below : List Frame),
        m.frames = f :: below → ∃ v m', Exec.execute code i m = .ok none m' ∧
          m'.frames = f.push v :: below ∧ v.const? = some k') ∧
      (index < UInt32.size →
        k' = Assembler.loadedAs (before.filterMap Directive.const?) k ∧
        k'.unsignZeros = k.unsignZeros ∧ ((∀ items, k ≠ .tuple items) → k' = k)) := by
  intro a index
  have hentry : c.consts[index]? = _ := getElem?_consts_of_assemble h
  have hlt := (Array.getElem?_eq_some_iff.mp hentry).1
  have hmin : min index (UInt32.size - 1) < c.consts.size :=
    Nat.lt_of_le_of_lt (Nat.min_le_left _ _) hlt
  obtain ⟨k', hk'⟩ : ∃ k', c.consts[min index (UInt32.size - 1)]? = some k' :=
    ⟨_, Array.getElem?_eq_getElem hmin⟩
  have hresolve : c.resolve .loadConst (Assembler.indexArg index).toNat
      (a.apply (.const k)).offset = .ok (.const k') := by
    rw [Code.resolve, Emission.toNat_indexArg]
    simp only [Opcode.operandKind, Code.entry, hk']
    rfl
  obtain ⟨i, hi, hopcode, hoperand⟩ := (stored_of_assemble h rfl).decode_of_resolve rfl hresolve
  refine ⟨i, k', hi, hopcode, hoperand, hk', ?_, ?_⟩
  · intro code m f below hf
    exact Exec.loadConst_run code hopcode hoperand hf
  · intro hfits
    rw [show min index (UInt32.size - 1) = index by omega, hentry] at hk'
    cases hk'
    exact ⟨rfl, Assembler.unsignZeros_loadedAs _ k, Assembler.loadedAs_of_not_tuple _⟩

/-- A tuple after one that has the same number in the first place and another value in the
second. -/
theorem tuple_loads_back_after_another :
    let k : Const := .tuple [.float ⟨0x8000000000000000⟩, .tuple [.str "a"]]
    let before : List Directive := [.const (.tuple [.float ⟨0⟩, .int 1]), .op .popTop]
    ∃ c i, assemble "f" (before ++ .const k :: [.op .returnValue]) = .ok c ∧ c.decode 4 = .ok i ∧
      i.operand = .const k := by
  intro k before
  have hassemble : assemble "f" (before ++ .const k :: [.op .returnValue]) = .ok
      ⟨"f", #[100, 0, 0, 1, 100, 1, 0, 83], #[.tuple [.float ⟨0⟩, .int 1], k], #[], #[], #[], #[],
        0, 0, 0, 1⟩ := by
    cbv
  have hindex : (Assembler.internConst (Assembler.run { name := "f" } before).consts k).1 <
      UInt32.size := by
    cbv
  have hloaded : Assembler.loadedAs (before.filterMap Directive.const?) k = k := by
    cbv
  have hoffset : (Assembler.run { name := "f" } before).offset = 4 := by
    cbv
  obtain ⟨i, k', hi, -, hoperand, -, -, hfits⟩ := constants_load_back hassemble
  rw [hoffset] at hi
  rw [(hfits hindex).1, hloaded] at hoperand
  exact ⟨_, i, hassemble, hi, hoperand⟩

/-- A tuple of a negative zero after the tuple of a positive one. -/
theorem tuple_of_zero_loads_back_as_another :
    ∃ c i, assemble "f" [.const (.tuple [.float ⟨0⟩]),
        .const (.tuple [.float ⟨0x8000000000000000⟩])] = .ok c ∧
      c.decode 3 = .ok i ∧ i.operand = .const (.tuple [.float ⟨0⟩]) ∧
      Const.tuple [.float ⟨0⟩] ≠ .tuple [.float ⟨0x8000000000000000⟩] := by
  refine ⟨⟨"f", #[100, 0, 0, 100, 0, 0], #[.tuple [.float ⟨0⟩]], #[], #[], #[], #[], 0, 0, 0, 2⟩,
    ⟨3, 6, 100, some .loadConst, .const (.tuple [.float ⟨0⟩]), 0⟩, ?_, ?_, rfl, by simp⟩
  · cbv
  · cbv

end StackVM
