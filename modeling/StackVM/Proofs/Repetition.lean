/-
Repetition of sequences. A string, a list or a tuple times an integer is a new object of its type
that holds copies of its parts one after the other, or it is refused for its size. The size is
computed without bound here, so a product that 64 bits do not hold is just one that is too large.

* `Heap.parts`: the characters of a string, the items of a list or tuple;
* `Heap.extent`, `Value.capacity`: the size of a sequence and its bound, each in its own unit;
* `repeatText_toList`, `repeatItems_eq`: what the copying loops put together;
* `checkRepeated_of_le`, `checkRepeated_of_lt`: the bound on the size;
* `Heap.Has`: the object of a value exists; `Heap.Copies`: a new object made of copies;
* `Value.repeated_of_le`, `Value.repeated_of_lt`: repetition of any sequence;
* `repetition_is_exact`: **the product**, from either side.
-/
import Mathlib
import StackVM.Proofs.IntegerArithmetic
import StackVM.Proofs.Traversal

namespace StackVM

/-! ### Copies -/

/-- The loop puts copies of the items in front of what is there. -/
lemma repeatOnto_eq (items rest : List Value) (n : ℕ) :
    repeatOnto items n rest = (List.replicate n items).flatten ++ rest := by
  induction n generalizing rest with
  | zero => rfl
  | succ n ih => rw [repeatOnto, ih, List.replicate_succ', List.flatten_concat, List.append_assoc]

lemma repeatItems_eq (items : List Value) (n : ℕ) :
    repeatItems items n = (List.replicate n items).flatten := by
  rw [repeatItems]
  split
  next hempty => simp [List.isEmpty_iff.mp hempty]
  next => rw [repeatOnto_eq, List.append_nil]

/-- A text of some copies, twice over, is one of twice as many. -/
lemma toList_append_self {s half : String} {m : ℕ}
    (hhalf : half.toList = (List.replicate m s.toList).flatten) :
    (half ++ half).toList = (List.replicate (m + m) s.toList).flatten := by
  rw [String.toList_append, hhalf, ← List.flatten_append, List.replicate_append_replicate]

/-- Doubling, and one more copy if their number is odd, gives all copies. -/
lemma repeatText_toList (s : String) (n : ℕ) :
    (repeatText s n).toList = (List.replicate n s.toList).flatten := by
  fun_induction repeatText s n with
  | case1 => rfl
  | case2 n _ half heven ih =>
      have hn : n / 2 + n / 2 = n := by omega
      rw [toList_append_self ih, hn]
  | case3 n _ half hodd ih =>
      have hn : n / 2 + n / 2 + 1 = n := by omega
      calc (half ++ half ++ s).toList
          = (List.replicate (n / 2 + n / 2) s.toList).flatten ++ s.toList := by
            rw [String.toList_append, toList_append_self ih]
        _ = (List.replicate (n / 2 + n / 2 + 1) s.toList).flatten := by
            rw [List.replicate_succ', List.flatten_concat]
        _ = (List.replicate n s.toList).flatten := by rw [hn]

/-! ### Size -/

/-- A size within the bound is accepted. -/
lemma checkRepeated_of_le {size n bytes : ℕ} (hbytes : 0 < bytes)
    (hle : n * size * bytes ≤ maxSequenceBytes) : checkRepeated size n bytes = .ok () := by
  have htotal : n * size ≤ n * size * bytes := Nat.le_mul_of_pos_right _ hbytes
  have hword : n * size < UInt64.size := by
    rw [maxSequenceBytes] at hle
    rw [UInt64.size]
    omega
  rw [checkRepeated, Nat.mul_comm size n, if_pos hword, checkSequence, if_pos hle]

/-- A size beyond the bound is refused, be it counted by 64 bits or not. -/
lemma checkRepeated_of_lt {size n bytes : ℕ} (hlt : maxSequenceBytes < n * size * bytes) :
    ∃ items, checkRepeated size n bytes = .error (.sequence items) := by
  rw [checkRepeated, Nat.mul_comm size n]
  split
  next => exact ⟨_, if_neg (Nat.not_le.mpr hlt)⟩
  next => exact ⟨_, rfl⟩

namespace Value

/-- The values that can be repeated. -/
def isRepeatable : Value → Bool
  | .str _ _ | .list _ | .tuple _ _ => true
  | _ => false

/-- The largest size of a sequence that is made by repetition: bytes of a string, items of a list
or tuple. -/
def capacity : Value → ℕ
  | .str _ _ => 2 ^ 30
  | _ => 33554432

/-- Bytes for each unit of the size. -/
def unitBytes : Value → ℕ
  | .str _ _ => 1
  | _ => valueBytes

/-- The capacity is what the bound in bytes leaves room for. -/
lemma mul_unitBytes_le_iff (s : Value) (n : ℕ) :
    n * s.unitBytes ≤ maxSequenceBytes ↔ n ≤ s.capacity := by
  cases s with
  | str _ _ => simp [unitBytes, capacity, maxSequenceBytes]
  | _ => simp only [unitBytes, capacity, maxSequenceBytes, valueBytes]; omega

lemma unitBytes_pos (s : Value) : 0 < s.unitBytes := by
  cases s <;> simp [unitBytes, valueBytes]

end Value

namespace Heap

/-- The size of a sequence: bytes of a string, items of a list or tuple. -/
def extent (h : Heap) : Value → ℕ
  | .str _ s => s.utf8ByteSize
  | .list r => (h.list r).size
  | .tuple _ items => items.length
  | _ => 0

/-- The parts of a sequence: characters of a string, items of a list or tuple. -/
def parts (h : Heap) : Value → List (Char ⊕ Value)
  | .str _ s => s.toList.map .inl
  | .list r => (h.list r).toList.map .inr
  | .tuple _ items => items.map .inr
  | _ => []

/-! ### New objects -/

/-- The identity has been given out, or that of the code object that it is part of. -/
def Issued (h : Heap) : Ident → Prop
  | .made n => n < h.idents
  | .pooled owner _ => h.Issued owner

/-- The object that a sequence is exists. -/
def Has (h : Heap) : Value → Prop
  | .str i _ | .tuple i _ => h.Issued i
  | .list r => r.index < h.lists.size
  | _ => True

/-- The value `v` is a new object of the type of `s`, made of `n` copies of the parts of `s`. All
that was in the heap `h` is in `h'` as it was. -/
structure Copies (h : Heap) (s : Value) (n : ℕ) (v : Value) (h' : Heap) : Prop where
  typeTag : v.typeTag = s.typeTag
  parts : h'.parts v = (List.replicate n (h.parts s)).flatten
  made : h'.Has v
  fresh : ∀ w, h.Has w → v.is w = false
  lists : h.lists.Extends h'.lists
  others : h' = { h with lists := h'.lists, idents := h'.idents }

/-- The identity that is given out next is that of no string or tuple yet. -/
lemma not_issued_next (h : Heap) {i : Ident} (hi : h.Issued i) : Ident.made h.idents ≠ i := by
  rintro rfl
  exact Nat.lt_irrefl _ hi

lemma copies_str (h : Heap) (i : Ident) (s : String) (n : ℕ) :
    h.Copies (.str i s) n (.str (.made h.idents) (repeatText s n))
      { h with idents := h.idents + 1 } where
  typeTag := rfl
  parts := by simp [Heap.parts, repeatText_toList, List.map_flatten]
  made := Nat.lt_succ_self _
  fresh := by
    intro w hw
    rw [Value.is_eq_same]
    cases w with
    | str j t => simp [Value.same, h.not_issued_next hw]
    | _ => rfl
  lists := .refl _
  others := rfl

lemma copies_tuple (h : Heap) (i : Ident) (items : List Value) (n : ℕ) :
    h.Copies (.tuple i items) n (.tuple (.made h.idents) (repeatItems items n))
      { h with idents := h.idents + 1 } where
  typeTag := rfl
  parts := by simp [Heap.parts, repeatItems_eq, List.map_flatten]
  made := Nat.lt_succ_self _
  fresh := by
    intro w hw
    rw [Value.is_eq_same]
    cases w with
    | tuple j ys => simp [Value.same, h.not_issued_next hw]
    | _ => rfl
  lists := .refl _
  others := rfl

lemma copies_list (h : Heap) (r : Ref .list) (n : ℕ) :
    h.Copies (.list r) n (.list h.lists.next)
      { h with lists := h.lists.alloc (repeatItems (h.list r).toList n).toArray } where
  typeTag := rfl
  parts := by
    rw [Heap.parts, Heap.list, Store.get?_alloc_self, Option.getD_some, repeatItems_eq]
    simp [Heap.parts, List.map_flatten]
  made := by simp [Has, Store.next, Store.alloc, Store.size]
  fresh := by
    intro w hw
    rw [Value.is_eq_same]
    cases w with
    | list q =>
        have hq : h.lists.next ≠ q := by
          rintro rfl
          exact Nat.lt_irrefl _ hw
        simp [Value.same, hq]
    | _ => rfl
  lists := h.lists.extends_alloc _
  others := rfl

end Heap

/-! ### Repetition -/

namespace Value

variable {s c : Value} {h h' : Heap} {k : Int64}

lemma repeated_of_le (hs : s.isRepeatable = true)
    (hle : k.toInt.toNat * h.extent s ≤ s.capacity) :
    ∃ v h', s.repeated k h = .ok (some v) h' ∧ h.Copies s k.toInt.toNat v h' := by
  have hcheck := checkRepeated_of_le s.unitBytes_pos ((s.mul_unitBytes_le_iff _).mpr hle)
  have hlimit : Eval.ofLimit (checkRepeated (h.extent s) k.toInt.toNat s.unitBytes) h =
      .ok () h := by
    rw [hcheck]
    rfl
  cases s with
  | str i s => exact ⟨_, _, bind_of_ok hlimit, h.copies_str i s _⟩
  | list r => exact ⟨_, _, bind_of_ok hlimit, h.copies_list r _⟩
  | tuple i items => exact ⟨_, _, bind_of_ok hlimit, h.copies_tuple i items _⟩
  | _ => cases hs

lemma repeated_of_lt (hs : s.isRepeatable = true)
    (hlt : s.capacity < k.toInt.toNat * h.extent s) :
    ∃ items, s.repeated k h = .error (.sequenceTooLarge items) h := by
  have hbytes : maxSequenceBytes < k.toInt.toNat * h.extent s * s.unitBytes := by
    rw [← Nat.not_le, s.mul_unitBytes_le_iff]
    exact Nat.not_le.mpr hlt
  obtain ⟨items, hcheck⟩ := checkRepeated_of_lt hbytes
  have hlimit : Eval.ofLimit (checkRepeated (h.extent s) k.toInt.toNat s.unitBytes) h =
      .error (.sequenceTooLarge items) h := by
    rw [hcheck]
    rfl
  refine ⟨items, ?_⟩
  cases s with
  | str i s => exact bind_error_iff.mpr (.inl hlimit)
  | list r => exact (bind_of_ok (Eval.get_run h)).trans (bind_error_iff.mpr (.inl hlimit))
  | tuple i items => exact bind_error_iff.mpr (.inl hlimit)
  | _ => cases hs

/-! ### Products -/

/-- A sequence is no number, so that a product with one is a repetition, on whichever side the
sequence stands. -/
lemma arith?_multiply (hs : s.isRepeatable = true) (hc : c.asInt? = some k) :
    arith? .multiply s c = s.repeated k ∧ arith? .multiply c s = s.repeated k := by
  have hcount : (∃ b, c = .bool b) ∨ ∃ i, c = .int i := by
    cases c with
    | bool b => exact .inl ⟨b, rfl⟩
    | int i => exact .inr ⟨i, rfl⟩
    | _ => cases hc
  cases s with
  | str _ _ => rcases hcount with ⟨b, rfl⟩ | ⟨i, rfl⟩ <;> cases hc <;> exact ⟨rfl, rfl⟩
  | list _ => rcases hcount with ⟨b, rfl⟩ | ⟨i, rfl⟩ <;> cases hc <;> exact ⟨rfl, rfl⟩
  | tuple _ _ => rcases hcount with ⟨b, rfl⟩ | ⟨i, rfl⟩ <;> cases hc <;> exact ⟨rfl, rfl⟩
  | _ => cases hs

lemma binary_multiply_of_ok (hs : s.isRepeatable = true) (hc : c.asInt? = some k) {v : Value}
    (hx : s.repeated k h = .ok (some v) h') :
    s.binary .multiply c h = .ok v h' ∧ c.binary .multiply s h = .ok v h' := by
  obtain ⟨hleft, hright⟩ := arith?_multiply hs hc
  exact ⟨bind_of_ok (hleft ▸ hx), bind_of_ok (hright ▸ hx)⟩

lemma binary_multiply_of_error (hs : s.isRepeatable = true) (hc : c.asInt? = some k) {e : Cause}
    (hx : s.repeated k h = .error e h') :
    s.binary .multiply c h = .error e h' ∧ c.binary .multiply s h = .error e h' := by
  obtain ⟨hleft, hright⟩ := arith?_multiply hs hc
  exact ⟨bind_error_iff.mpr (.inl (hleft ▸ hx)), bind_error_iff.mpr (.inl (hright ▸ hx))⟩

end Value

/-- What the product of a sequence `s` and a count `c` comes to that stands for `n` copies. -/
structure ExactRepetition (s c : Value) (n : ℕ) (h : Heap) : Prop where
  /-- Nothing but the size is a reason to refuse it. -/
  raises_iff : ∀ cls, (s.binary .multiply c).Raises h cls ↔
    cls = .memoryError ∧ s.capacity < n * h.extent s
  /-- A product that is refused leaves the heap alone. -/
  refused : ∀ e h', s.binary .multiply c h = .error e h' → h' = h
  /-- A product within the bound is a new object. -/
  value : n * h.extent s ≤ s.capacity →
    ∃ v h', s.binary .multiply c h = .ok v h' ∧ h.Copies s n v h'
  /-- The side does not matter. -/
  comm : c.binary .multiply s h = s.binary .multiply c h

/-- **Repetition is exact or refused.** A string, a list or a tuple times a value that stands for
an integer raises a memory error exactly if the copies take more than 2 ^ 30 bytes of a string or
33554432 items of a list or tuple. Otherwise it is a new object of the same type with as many
copies of the parts as the integer says, none if it is negative. Nothing that was there before is
changed, and the integer may stand on either side. -/
theorem repetition_is_exact {s c : Value} {k : Int64} (hs : s.isRepeatable = true)
    (hc : c.asInt? = some k) (h : Heap) : ExactRepetition s c k.toInt.toNat h := by
  rcases Nat.lt_or_ge s.capacity (k.toInt.toNat * h.extent s) with hlt | hle
  · obtain ⟨items, hx⟩ := Value.repeated_of_lt hs hlt
    obtain ⟨hleft, hright⟩ := Value.binary_multiply_of_error hs hc hx
    refine ⟨fun cls => ?_, fun e h' he => ?_, fun hle => ?_, hright.trans hleft.symm⟩
    · rw [Eval.raises_iff_of_error hleft]
      exact ⟨fun hcls => ⟨hcls.symm, hlt⟩, fun hcls => hcls.1.symm⟩
    · rw [hleft] at he
      cases he
      rfl
    · exact absurd hle (Nat.not_le.mpr hlt)
  · obtain ⟨v, h', hx, hcopies⟩ := Value.repeated_of_le hs hle
    obtain ⟨hleft, hright⟩ := Value.binary_multiply_of_ok hs hc hx
    refine ⟨fun cls => ?_, fun e h' he => ?_, fun _ => ⟨v, h', hleft, hcopies⟩,
      hright.trans hleft.symm⟩
    · refine iff_of_false (Eval.not_raises_of_ok hleft) ?_
      exact fun hcls => Nat.not_lt.mpr hle hcls.2
    · rw [hleft] at he
      cases he

/-- A pair three times over, from the right; a negative number of copies of a text; and a pair so
often that 64 bits do not hold the number of items. -/
theorem pair_is_repeated :
    let pair : Value := .tuple (.made 0) [.int 1, .int 2]
    let text : Value := .str (.made 1) "né"
    let h : Heap := { idents := 2 }
    (∃ v h', Value.binary .multiply (.int 3) pair h = .ok v h' ∧
        h'.parts v = [.inr (.int 1), .inr (.int 2), .inr (.int 1), .inr (.int 2), .inr (.int 1),
          .inr (.int 2)] ∧ v.is pair = false) ∧
      (∃ v h', Value.binary .multiply text (.int (-1)) h = .ok v h' ∧ h'.parts v = []) ∧
      (Value.binary .multiply pair (.int Int64.maxValue)).Raises h .memoryError := by
  intro pair text h
  have hthree := repetition_is_exact (s := pair) (c := .int 3) rfl rfl h
  have hnone := repetition_is_exact (s := text) (c := .int (-1)) rfl rfl h
  have hhuge := repetition_is_exact (s := pair) (c := .int Int64.maxValue) rfl rfl h
  refine ⟨?_, ?_, (hhuge.raises_iff _).mpr ⟨rfl, by decide⟩⟩
  · obtain ⟨v, h', hv, hcopies⟩ := hthree.value (by decide)
    exact ⟨v, h', hthree.comm.trans hv, hcopies.parts, hcopies.fresh pair Nat.two_pos⟩
  · obtain ⟨v, h', hv, hcopies⟩ := hnone.value (by decide)
    exact ⟨v, h', hv, hcopies.parts⟩

end StackVM
