/-
Packed code objects read back. The bytes that a writer puts out tell its reader where they
end: the reader gives the value back whatever follows them, and runs out of bytes on every
part of them that is cut short.

* `Unpack.Reads`: what a reader does with the bytes of a value, whole or cut short;
* `Unpack.Reads.bind`: readers in a row;
* `Unpack.varint_reads`, `Unpack.text_reads`, `Unpack.seq_reads`: the parts of a code object;
* `Const.Sized`, `Code.Sized`: every size fits a count of 64 bits;
* `Const.dump_reads`, `Code.dump_reads`: constants and code objects, nested to any depth;
* `load_inverts_dump`: what that says of whole code objects.
-/
import Mathlib
import StackVM.Packed.Code

namespace StackVM

/-! ### Sizes -/

/-- A table of names whose size, and the size of each of whose names, fits a count of 64 bits. -/
def NamesSized (names : Array String) : Prop :=
  names.size < 2 ^ 64 ∧ ∀ s ∈ names.toList, s.utf8ByteSize < 2 ^ 64

mutual

/-- Every size in a constant fits a count of 64 bits. -/
def Const.Sized : Const → Prop
  | .none | .bool _ | .int _ | .float _ => True
  | .str s => s.utf8ByteSize < 2 ^ 64
  | .tuple xs => xs.length < 2 ^ 64 ∧ Const.AllSized xs
  | .code c => Code.Sized c
termination_by structural c => c

/-- Every size in constants fits a count of 64 bits. -/
def Const.AllSized : List Const → Prop
  | [] => True
  | x :: xs => Const.Sized x ∧ Const.AllSized xs
termination_by structural cs => cs

/-- Every size in a constant pool fits a count of 64 bits. -/
def Const.PoolSized : Array Const → Prop
  | ⟨xs⟩ => xs.length < 2 ^ 64 ∧ Const.AllSized xs
termination_by structural cs => cs

/-- Every size in a code object fits a count of 64 bits. -/
def Code.Sized : Code → Prop
  | ⟨name, bytecode, consts, names, varnames, cellvars, freevars, _, _, _, _⟩ =>
    name.utf8ByteSize < 2 ^ 64 ∧ bytecode.size < 2 ^ 64 ∧ Const.PoolSized consts ∧
      NamesSized names ∧ NamesSized varnames ∧ NamesSized cellvars ∧ NamesSized freevars
termination_by structural c => c

end

namespace Unpack

variable {α β : Type}

/-- The reader `p` reads `a` from the bytes `bs`, leaves what follows them, and runs out of
bytes on every part of them that is cut short. `p n` is meant for at most `n` bytes. -/
structure Reads (p : Nat → Unpack α) (bs : List UInt8) (a : α) : Prop where
  whole : ∀ n rest, (bs ++ rest).length ≤ n → p n (bs ++ rest) = .ok (a, rest)
  cut : ∀ n part, part.length ≤ n → part <+: bs → part ≠ bs → p n part = .error .endOfBuffer

/-! ### Readers in a row -/

lemma bind_of_ok {x : Unpack α} {f : α → Unpack β} {bs rest : List UInt8} {a : α}
    (h : x bs = .ok (a, rest)) : (x >>= f) bs = f a rest := by
  simp only [bind, StateT.bind, h, Except.bind]

lemma bind_of_error {x : Unpack α} {f : α → Unpack β} {bs : List UInt8} {e : PackError}
    (h : x bs = .error e) : (x >>= f) bs = .error e := by
  simp only [bind, StateT.bind, h, Except.bind]

/-- Where a row of bytes can be cut short: in its first part, or after it. -/
lemma cut_append {part bs cs : List UInt8} (h : part <+: bs ++ cs) :
    (part <+: bs ∧ part ≠ bs) ∨ ∃ part', part = bs ++ part' ∧ part' <+: cs := by
  rcases List.prefix_or_prefix_of_prefix h (List.prefix_append bs cs) with hpart | ⟨part', rfl⟩
  · by_cases heq : part = bs
    · exact .inr ⟨[], by rw [heq, List.append_nil], List.nil_prefix⟩
    · exact .inl ⟨hpart, heq⟩
  · exact .inr ⟨part', rfl, (List.prefix_append_right_inj bs).mp h⟩

/-- A value that is just given takes no bytes. -/
lemma pure_reads (a : α) : Reads (fun _ => pure a) [] a := by
  refine ⟨fun _ _ _ => rfl, ?_⟩
  intro n part _ hpart hne
  exact absurd (List.prefix_nil.mp hpart) hne

/-- **Readers in a row** read the bytes of both. -/
lemma Reads.bind {p : Nat → Unpack α} {f : α → Nat → Unpack β} {s t : List UInt8} {a : α} {b : β}
    (hp : Reads p s a) (hf : Reads (f a) t b) :
    Reads (fun n => p n >>= fun x => f x n) (s ++ t) b := by
  refine ⟨?_, ?_⟩
  · intro n rest hn
    rw [List.append_assoc] at hn ⊢
    rw [bind_of_ok (hp.whole n (t ++ rest) hn)]
    refine hf.whole n rest (Nat.le_trans ?_ hn)
    exact (List.suffix_append s (t ++ rest)).length_le
  · intro n part hn hpart hne
    rcases cut_append hpart with ⟨hpart, hne⟩ | ⟨part', rfl, hpart'⟩
    · exact bind_of_error (hp.cut n part hn hpart hne)
    · rw [bind_of_ok (hp.whole n part' hn)]
      refine hf.cut n part' (Nat.le_trans ?_ hn) hpart' ?_
      · exact (List.suffix_append s part').length_le
      · rintro rfl
        exact hne rfl

/-- A reader whose value is changed reads the same bytes. -/
lemma Reads.map {p : Nat → Unpack α} {bs : List UInt8} {a : α} (hp : Reads p bs a) (g : α → β) :
    Reads (fun n => p n >>= fun x => pure (g x)) bs (g a) := by
  have h := hp.bind (f := fun x _ => pure (g x)) (pure_reads (g a))
  rwa [List.append_nil] at h

/-! ### Bytes and numbers -/

lemma byte_reads (b : UInt8) : Reads (fun _ => byte) [b] b := by
  refine ⟨fun _ _ _ => rfl, ?_⟩
  intro n part _ hpart hne
  rcases List.prefix_cons_iff.mp hpart with rfl | ⟨part', rfl, hpart'⟩
  · rfl
  · rw [List.prefix_nil.mp hpart'] at hne
    exact absurd rfl hne

lemma bytes_reads (bs : List UInt8) : Reads (fun _ => bytes bs.length) bs bs := by
  refine ⟨?_, ?_⟩
  · intro n rest _
    have hlength : ¬ (bs ++ rest).length < bs.length := by
      rw [List.length_append]
      omega
    rw [bytes, if_neg hlength, List.take_left, List.drop_left]
  · intro n part _ hpart hne
    have hlength : part.length < bs.length :=
      Nat.lt_of_le_of_ne hpart.length_le fun h => hne (hpart.eq_of_length h)
    rw [bytes, if_pos hlength]

lemma varint_of_lt {n : Nat} (h : n < 128) : Packed.varint n = [UInt8.ofNat n] := by
  rw [Packed.varint, if_pos h]

lemma varint_of_ge {n : Nat} (h : ¬ n < 128) :
    Packed.varint n = UInt8.ofNat (n % 128 + 128) :: Packed.varint (n / 128) := by
  rw [Packed.varint, if_neg h]

/-- A natural of one group. -/
lemma groups_reads_of_lt {last k n : Nat} (hn : n < 128) (hfits : ¬ (k = 0 ∧ last < n)) :
    Reads (fun _ => groups last (k + 1)) (Packed.varint n) n := by
  have hbyte : (UInt8.ofNat n).toNat = n := UInt8.toNat_ofNat_of_lt' (show _ < 256 by omega)
  have hlt : UInt8.ofNat n < 128 := by
    rw [UInt8.lt_iff_toNat_lt, hbyte]
    exact hn
  rw [varint_of_lt hn]
  refine (byte_reads _).bind (f := fun b _ => _) ?_
  simp only [if_pos hlt, hbyte]
  rw [if_neg hfits]
  exact pure_reads n

/-- A natural that fits in groups of seven bits, `last` being the most that the last of them
holds. -/
lemma groups_reads {last : Nat} (hlast : last < 128) (k n : Nat) (hn : n < (last + 1) * 128 ^ k) :
    Reads (fun _ => groups last (k + 1)) (Packed.varint n) n := by
  induction k generalizing n with
  | zero => exact groups_reads_of_lt (by omega) (by omega)
  | succ k ih =>
      by_cases hsmall : n < 128
      · exact groups_reads_of_lt hsmall (by omega)
      · have hbyte : (UInt8.ofNat (n % 128 + 128)).toNat = n % 128 + 128 :=
          UInt8.toNat_ofNat_of_lt' (show _ < 256 by omega)
        have hge : ¬ UInt8.ofNat (n % 128 + 128) < 128 := by
          rw [UInt8.lt_iff_toNat_lt, hbyte]
          exact Nat.not_lt.mpr (Nat.le_add_left _ _)
        have hhigh : n / 128 < (last + 1) * 128 ^ k := by
          refine Nat.div_lt_of_lt_mul ?_
          calc n < (last + 1) * 128 ^ (k + 1) := hn
            _ = 128 * ((last + 1) * 128 ^ k) := by ring
        have hvalue : n % 128 + 128 - 128 + 128 * (n / 128) = n := by omega
        rw [varint_of_ge hsmall]
        refine (byte_reads _).bind (f := fun b _ => _) ?_
        simp only [if_neg hge, hbyte]
        have h := (ih (n / 128) hhigh).map fun high => n % 128 + 128 - 128 + 128 * high
        rwa [hvalue] at h

/-- A natural of `bits` bits. -/
lemma varint_reads {bits n : Nat} (hn : n < 2 ^ bits) :
    Reads (fun _ => varint bits) (Packed.varint n) n := by
  have hlast : (1 <<< (bits % 7)) - 1 + 1 = 2 ^ (bits % 7) := by
    rw [Nat.one_shiftLeft]
    exact Nat.sub_add_cancel Nat.one_le_two_pow
  refine groups_reads ?_ (bits / 7) n ?_
  · have hseven : 2 ^ (bits % 7) ≤ 2 ^ 6 := Nat.pow_le_pow_right (by omega) (by omega)
    omega
  · calc n < 2 ^ bits := hn
      _ = 2 ^ (bits % 7 + 7 * (bits / 7)) := by rw [Nat.mod_add_div]
      _ = (1 <<< (bits % 7) - 1 + 1) * 128 ^ (bits / 7) := by rw [hlast, pow_add, pow_mul]; norm_num

lemma bool_reads (b : Bool) : Reads (fun _ => bool) (Packed.bool b) b := by
  refine (byte_reads _).bind (f := fun x _ => _) (t := []) ?_
  cases b <;> exact pure_reads _

/-! ### Integers -/

lemma unzigzag_zigzag (i : Int) : unzigzag (Packed.zigzag i) = i := by
  rw [Packed.zigzag, unzigzag]
  split <;> split <;> omega

/-- The natural that a signed integer of 64 bits is written as has 64 bits. -/
lemma zigzag_lt (i : Int64) : Packed.zigzag i.toInt < 2 ^ 64 := by
  have hlow := i.le_toInt
  have hhigh := i.toInt_lt
  rw [Packed.zigzag]
  split <;> omega

lemma int_reads (i : Int64) : Reads (fun _ => int) (Packed.int i) i := by
  have h := (varint_reads (zigzag_lt i)).map fun n => Int64.ofInt (unzigzag n)
  rwa [unzigzag_zigzag, Int64.ofInt_toInt] at h

/-! ### Floats and texts -/

lemma length_littleEndian (width n : Nat) : (Packed.littleEndian width n).length = width := by
  induction width generalizing n with
  | zero => rfl
  | succ width ih => rw [Packed.littleEndian, List.length_cons, ih]

/-- The bytes of a natural give its low part back. -/
lemma ofLittleEndian_littleEndian (width n : Nat) :
    ofLittleEndian (Packed.littleEndian width n) = n % 256 ^ width := by
  induction width generalizing n with
  | zero => rw [pow_zero, Nat.mod_one]; rfl
  | succ width ih =>
      have hbyte : (UInt8.ofNat (n % 256)).toNat = n % 256 :=
        UInt8.toNat_ofNat_of_lt' (Nat.mod_lt _ (by omega))
      rw [Packed.littleEndian, ofLittleEndian, hbyte, ih, pow_succ', Nat.mod_mul]

lemma double_reads (d : Double) : Reads (fun _ => double) (Packed.double d) d := by
  have h := (bytes_reads (Packed.double d)).map fun bs =>
    (⟨UInt64.ofNat (ofLittleEndian bs)⟩ : Double)
  have hbits : ofLittleEndian (Packed.double d) = d.bits.toNat := by
    rw [Packed.double, ofLittleEndian_littleEndian]
    exact Nat.mod_eq_of_lt d.bits.toNat_lt
  rw [hbits, UInt64.ofNat_toNat] at h
  rwa [Packed.double, length_littleEndian] at h

/-- The bytes of a text are those of that text. -/
lemma fromUTF8?_toUTF8 (s : String) :
    String.fromUTF8? ⟨s.toUTF8.data.toList.toArray⟩ = some s := by
  rw [Array.toArray_toList]
  exact dif_pos s.isValidUTF8

lemma text_reads {s : String} (hs : s.utf8ByteSize < 2 ^ 64) :
    Reads (fun _ => text) (Packed.text s) s := by
  have hsize : s.utf8ByteSize = s.toUTF8.data.toList.length := Array.length_toList.symm
  have hbytes := bytes_reads s.toUTF8.data.toList
  rw [← hsize] at hbytes
  refine (varint_reads hs).bind (f := fun n _ => _) ?_
  rw [← List.append_nil s.toUTF8.data.toList]
  refine hbytes.bind (f := fun bs _ => _) ?_
  rw [fromUTF8?_toUTF8]
  exact pure_reads s

/-! ### Sequences -/

/-- Items that are read one after the other. -/
lemma items_reads {p : Nat → Unpack α} {write : α → List UInt8} {xs : List α}
    (hp : ∀ x ∈ xs, Reads p (write x) x) :
    Reads (fun n => items (p n) xs.length) (xs.flatMap write) xs := by
  induction xs with
  | nil => exact pure_reads []
  | cons x xs ih =>
      obtain ⟨hx, hxs⟩ := List.forall_mem_cons.mp hp
      have hrest := (ih hxs).map (x :: ·)
      exact hx.bind (f := fun x n => items (p n) xs.length >>= fun xs => pure (x :: xs)) hrest

lemma seq_reads {p : Nat → Unpack α} {write : α → List UInt8} {xs : List α}
    (hxs : xs.length < 2 ^ 64) (hp : ∀ x ∈ xs, Reads p (write x) x) :
    Reads (fun n => seq (p n)) (Packed.seq write xs) xs :=
  (varint_reads hxs).bind (f := fun k n => items (p n) k) (items_reads hp)

lemma names_reads {names : Array String} (hnames : NamesSized names) :
    Reads (fun _ => Unpack.names) (Packed.seq Packed.text names.toList) names := by
  have h := seq_reads (p := fun _ => text) hnames.1 fun s hs => text_reads (hnames.2 s hs)
  exact h.map List.toArray

lemma count_reads (n : UInt64) : Reads (fun _ => count) (Packed.varint n.toNat) n := by
  have h := (varint_reads n.toNat_lt).map UInt64.ofNat
  rwa [UInt64.ofNat_toNat] at h

end Unpack

/-! ### Constants and code objects -/

open Unpack

lemma Const.dumpAll_eq_flatMap (cs : List Const) : Const.dumpAll cs = cs.flatMap Const.dump := by
  induction cs with
  | nil => rfl
  | cons c cs ih => rw [Const.dumpAll, ih, List.flatMap_cons]

namespace Unpack

/-- The reader of what follows the variant number of a constant, nested at most `n` deep. -/
def payload (n : Nat) : Nat → Unpack Const
  | 0 => return .none
  | 1 => return .bool (← bool)
  | 2 => return .int (← int)
  | 3 => return .float (← double)
  | 4 => return .str (← text)
  | 5 => return .tuple (← seq (const n))
  | 6 => return .code (← codeWith (const n))
  | _ => throw .badVariant

lemma const_succ (n : Nat) : const (n + 1) = varint 32 >>= payload n :=
  rfl

/-- A constant is read from its variant number and what follows it. The number takes a byte, so
that one level of nesting less is enough for the rest. -/
lemma const_reads {variant : Nat} {bs : List UInt8} {c : Const} (hvariant : variant < 128)
    (h : Reads (fun n => payload n variant) bs c) :
    Reads const (Packed.varint variant ++ bs) c := by
  have hread : Reads (fun _ => varint 32) (Packed.varint variant) variant :=
    varint_reads (Nat.lt_of_lt_of_le hvariant (by norm_num))
  have hbyte : (Packed.varint variant).length = 1 := by
    rw [varint_of_lt hvariant]
    rfl
  refine ⟨?_, ?_⟩
  · intro n rest hn
    rw [List.append_assoc] at hn ⊢
    cases n with
    | zero =>
        rw [List.length_append] at hn
        omega
    | succ n =>
        rw [const_succ, bind_of_ok (hread.whole (n + 1) _ hn)]
        refine h.whole n rest ?_
        rw [List.length_append] at hn
        omega
  · intro n part hn hpart hne
    cases n with
    | zero =>
        rw [List.length_eq_zero_iff.mp (Nat.le_zero.mp hn)]
        rfl
    | succ n =>
        rw [const_succ]
        rcases cut_append hpart with ⟨hpart, hne⟩ | ⟨part', rfl, hpart'⟩
        · exact bind_of_error (hread.cut (n + 1) part hn hpart hne)
        · rw [bind_of_ok (hread.whole (n + 1) part' hn)]
          refine h.cut n part' ?_ hpart' ?_
          · rw [List.length_append] at hn
            omega
          · rintro rfl
            exact hne rfl

end Unpack

/-- A code object is read from its fields in order, if its constants are. -/
lemma Unpack.codeWith_reads {c : Code} (hc : c.Sized)
    (hconsts : ∀ x ∈ c.consts.toList, Reads Unpack.const x.dump x) :
    Reads (fun n => codeWith (Unpack.const n)) c.dump c := by
  obtain ⟨name, bytecode, ⟨consts⟩, names, varnames, cellvars, freevars, argCount, kwonlyArgCount,
    flags, stackSize⟩ := c
  obtain ⟨hname, hbytecode, ⟨hpool, -⟩, hnames, hvarnames, hcellvars, hfreevars⟩ := hc
  have hflags := varint_reads flags.toNat_lt
  simp only [Code.dump, Const.dumpPool, Const.dumpAll_eq_flatMap, List.append_assoc]
  refine (text_reads hname).bind (f := fun _ _ => _) ?_
  refine (seq_reads hbytecode fun b _ => byte_reads b).bind (f := fun _ _ => _) ?_
  rw [← List.append_assoc]
  refine (seq_reads hpool hconsts).bind (f := fun _ _ => _) ?_
  refine (names_reads hnames).bind (f := fun _ _ => _) ?_
  refine (names_reads hvarnames).bind (f := fun _ _ => _) ?_
  refine (names_reads hcellvars).bind (f := fun _ _ => _) ?_
  refine (names_reads hfreevars).bind (f := fun _ _ => _) ?_
  refine (count_reads argCount).bind (f := fun _ _ => _) ?_
  refine (count_reads kwonlyArgCount).bind (f := fun _ _ => _) ?_
  refine hflags.bind (f := fun _ _ => _) ?_
  simp only [UInt32.ofNat_toNat]
  exact (count_reads stackSize).map _

mutual

/-- A constant is read back. -/
lemma Const.dump_reads : ∀ c : Const, c.Sized → Reads Unpack.const c.dump c
  | .none, _ => by
      rw [Const.dump, ← List.append_nil (Packed.varint 0)]
      exact const_reads (by omega) (pure_reads _)
  | .bool b, _ => const_reads (by omega) ((bool_reads b).map _)
  | .int i, _ => const_reads (by omega) ((int_reads i).map _)
  | .float d, _ => const_reads (by omega) ((double_reads d).map _)
  | .str s, h => const_reads (by omega) ((text_reads h).map _)
  | .tuple xs, h => by
      rw [Const.dump, Const.dumpAll_eq_flatMap, List.append_assoc]
      exact const_reads (by omega) ((seq_reads h.1 (Const.dumpAll_reads xs h.2)).map _)
  | .code c, h => const_reads (by omega) ((Code.dump_reads c h).map _)

/-- Constants are read back, each in its turn. -/
lemma Const.dumpAll_reads : ∀ cs : List Const, Const.AllSized cs →
    ∀ c ∈ cs, Reads Unpack.const c.dump c
  | [], _ => List.forall_mem_nil _
  | c :: cs, h => List.forall_mem_cons.mpr ⟨Const.dump_reads c h.1, Const.dumpAll_reads cs h.2⟩

/-- A code object is read back. -/
lemma Code.dump_reads : ∀ c : Code, c.Sized → Reads (fun n => codeWith (Unpack.const n)) c.dump c
  | ⟨_, _, ⟨consts⟩, _, _, _, _, _, _, _, _⟩, h =>
      codeWith_reads h (Const.dumpAll_reads consts h.2.2.1.2)

end

/-- **Loading inverts dumping.** The bytes of a code object give it back, whatever follows them,
with its constants nested to any depth and its floats bit by bit. Every part of them that is
cut short runs out of bytes. -/
theorem load_inverts_dump {c : Code} (hc : c.Sized) :
    (∀ rest, Code.load (c.dump ++ rest) = .ok c) ∧
    ∀ part, part <+: c.dump → part ≠ c.dump → Code.load part = .error .endOfBuffer := by
  have hreads := c.dump_reads hc
  refine ⟨?_, ?_⟩
  · intro rest
    rw [Code.load, hreads.whole _ rest (Nat.le_refl _)]
  · intro part hpart hne
    rw [Code.load, hreads.cut _ part (Nat.le_refl _) hpart hne]

/-- The least integer, a not-a-number with a payload, and a code object within a tuple, with the
largest counts: the bytes give all of it back, and half of them run out. -/
theorem load_inverts_dump_of_nested_constants :
    let inner : Code := { Code.empty "g" with consts := #[.tuple [.none, .bool true]] }
    let c : Code :=
      { Code.empty "∀" with
        bytecode := #[100, 0, 0, 83]
        consts := #[.int Int64.minValue, .float ⟨0x7ff8000000000001⟩, .tuple [.str "é", .code inner]]
        names := #["x"], argCount := 18446744073709551615, flags := 4294967295 }
    c.Sized ∧ Code.load (c.dump ++ [7]) = .ok c ∧
      c.dump.take 40 <+: c.dump ∧ c.dump.take 40 ≠ c.dump ∧
      Code.load (c.dump.take 40) = .error .endOfBuffer := by
  intro inner c
  have hc : c.Sized := by
    simp only [c, inner, Code.empty, Code.Sized, Const.PoolSized, Const.AllSized, Const.Sized,
      NamesSized]
    decide
  have hlength : 40 < c.dump.length := by cbv
  have hne : c.dump.take 40 ≠ c.dump := by
    intro h
    have := congrArg List.length h
    rw [List.length_take] at this
    omega
  obtain ⟨hwhole, hcut⟩ := load_inverts_dump hc
  exact ⟨hc, hwhole [7], List.take_prefix _ _, hne, hcut _ (List.take_prefix _ _) hne⟩

end StackVM
