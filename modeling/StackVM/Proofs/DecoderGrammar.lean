/-
The grammar of the decoder. A stream is made of chunks: a byte alone, or a byte from 90 on with the
two bytes of its argument. An instruction is one chunk, which may stand after chunks that widen its
argument; all but the last of these are zero, since there is room for 32 bits only. Decoding
recognises this grammar, and its errors tell how the bytes depart from it.

* `Chunk`, `Widened`: the chunks of a stream, and those that widen the next one;
* `Operand.Designated`, `DecodeError.Kind.OutOfRange`: the operand that an argument designates, and
  the error if there is none;
* `Code.operandOf_of_designated`, `Code.operandOf_of_outOfRange`: resolving gives the one or the
  other;
* `Code.decodeFrom_whole`, `Code.decodeFrom_widening`, `Code.decodeFrom_cut`: **one chunk**;
* `Code.decodeFrom_widened`: all chunks before the instruction;
* `layout_cases`: whatever the bytes are, they are whole, cut off, or widened twice;
* `decoding_follows_grammar`: **decoding at any offset**.
-/
import Mathlib
import StackVM.Proofs.RoundTrip

namespace StackVM

/-! ### Chunks -/

/-- A piece of a stream: a byte that stands alone, or one with the two bytes of its argument. -/
inductive Chunk where
  | plain (byte : UInt8) (small : byte < haveArgument)
  | wide (byte lo hi : UInt8) (large : haveArgument ≤ byte)

namespace Chunk

/-- The bytes of a chunk. -/
def bytes : Chunk → List UInt8
  | .plain byte _ => [byte]
  | .wide byte lo hi _ => [byte, lo, hi]

/-- The byte of the opcode. -/
def byte : Chunk → UInt8
  | .plain byte _ => byte
  | .wide byte _ _ _ => byte

/-- The two bytes of the argument as a number, zero if there are none. -/
def low : Chunk → ℕ
  | .plain _ _ => 0
  | .wide _ lo hi _ => lo.toNat + 256 * hi.toNat

/-- The chunk widens the argument of the next one. -/
def Widens (k : Chunk) : Prop :=
  k.byte = Opcode.extendedArg.toByte

/-- The argument of a chunk after others that contribute `upper` to it. -/
def argument (upper : ℕ) : Chunk → ℕ
  | .plain _ _ => 0
  | .wide _ lo hi _ => upper * 65536 + (lo.toNat + 256 * hi.toNat)

lemma low_lt (k : Chunk) : k.low < 65536 := by
  cases k with
  | plain _ _ => exact Nat.succ_pos _
  | wide _ lo hi _ =>
      have := lo.toNat_lt
      have := hi.toNat_lt
      rw [low]
      omega

/-- What widens an argument has one itself. -/
lemma Widens.eq_wide {k : Chunk} (hk : k.Widens) :
    ∃ lo hi large, k = .wide Opcode.extendedArg.toByte lo hi large := by
  cases k with
  | plain byte small =>
      obtain rfl : byte = Opcode.extendedArg.toByte := hk
      exact absurd small (by decide)
  | wide byte lo hi large =>
      obtain rfl : byte = Opcode.extendedArg.toByte := hk
      exact ⟨lo, hi, large, rfl⟩

end Chunk

/-- What the chunks before an instruction contribute to its argument: the last of them counts. -/
def upperHalf (ps : List Chunk) : ℕ :=
  (ps.getLast?.map Chunk.low).getD 0

/-- The bytes begin with chunks that widen the next one, all of them zero but for the last, and go
on with `rest`. -/
structure Widened (bs : List UInt8) (ps : List Chunk) (rest : List UInt8) : Prop where
  bytes : bs = ps.flatMap Chunk.bytes ++ rest
  widens : ∀ p ∈ ps, p.Widens
  zeros : ∀ p ∈ ps.dropLast, p.low = 0

/-- The bytes are too few for the chunk that they begin. -/
def CutOff (bs : List UInt8) : Prop :=
  ∃ k : Chunk, bs <+: k.bytes ∧ bs ≠ k.bytes

/-- Bytes that are not cut off begin with a chunk. -/
lemma chunk_cases (bs : List UInt8) :
    CutOff bs ∨ ∃ (k : Chunk) (rest : List UInt8), bs = k.bytes ++ rest := by
  cases bs with
  | nil => exact .inl ⟨.plain 0 (by decide), List.nil_prefix, by simp [Chunk.bytes]⟩
  | cons byte bs =>
      by_cases hsmall : byte < haveArgument
      · exact .inr ⟨.plain byte hsmall, bs, rfl⟩
      · have hlarge := UInt8.not_lt.mp hsmall
        cases bs with
        | nil => exact .inl ⟨.wide byte 0 0 hlarge, ⟨[0, 0], rfl⟩, by simp [Chunk.bytes]⟩
        | cons lo bs =>
            cases bs with
            | nil => exact .inl ⟨.wide byte lo 0 hlarge, ⟨[0], rfl⟩, by simp [Chunk.bytes]⟩
            | cons hi rest => exact .inr ⟨.wide byte lo hi hlarge, rest, rfl⟩

namespace Widened

variable {bs rest : List UInt8} {ps : List Chunk} {p : Chunk}

lemma nil (bs : List UInt8) : Widened bs [] bs :=
  ⟨rfl, List.forall_mem_nil _, List.forall_mem_nil _⟩

lemma single (hp : p.Widens) (rest : List UInt8) : Widened (p.bytes ++ rest) [p] rest :=
  ⟨by simp, List.forall_mem_singleton.mpr hp, List.forall_mem_nil _⟩

/-- A zero may stand before the others. -/
lemma cons (h : Widened bs ps rest) (hp : p.Widens) (hzero : p.low = 0) :
    Widened (p.bytes ++ bs) (p :: ps) rest := by
  refine ⟨by simp [h.bytes], List.forall_mem_cons.mpr ⟨hp, h.widens⟩, ?_⟩
  cases ps with
  | nil => exact List.forall_mem_nil _
  | cons q ps => exact List.forall_mem_cons.mpr ⟨hzero, h.zeros⟩

end Widened

lemma upperHalf_cons {p : Chunk} (hzero : p.low = 0) (ps : List Chunk) :
    upperHalf (p :: ps) = upperHalf ps := by
  cases ps with
  | nil => exact hzero
  | cons q ps => rw [upperHalf, List.getLast?_cons_cons, ← upperHalf]

/-- **Whatever the bytes are**, what follows the chunks that widen an argument is cut off, or a
whole instruction, or a chunk that widens what has been widened already. -/
lemma layout_cases (bs : List UInt8) :
    ∃ ps rest, Widened bs ps rest ∧ (CutOff rest ∨ ∃ (k : Chunk) (rest' : List UInt8),
      rest = k.bytes ++ rest' ∧ (¬ k.Widens ∨ k.Widens ∧ upperHalf ps ≠ 0)) := by
  induction hn : bs.length using Nat.strong_induction_on generalizing bs with
  | _ n ih =>
      rcases chunk_cases bs with hcut | ⟨k, rest, rfl⟩
      · exact ⟨[], bs, .nil bs, .inl hcut⟩
      by_cases hk : k.Widens
      · by_cases hzero : k.low = 0
        · have hlt : rest.length < n := by
            obtain ⟨lo, hi, large, rfl⟩ := hk.eq_wide
            simp only [Chunk.bytes, List.length_append, List.length_cons] at hn
            omega
          obtain ⟨ps, rest', hw, hrest⟩ := ih _ hlt rest rfl
          rw [← upperHalf_cons hzero ps] at hrest
          exact ⟨k :: ps, rest', hw.cons hk hzero, hrest⟩
        · -- the next chunk decides
          refine ⟨[k], rest, .single hk rest, ?_⟩
          rcases chunk_cases rest with hcut | ⟨k', rest', rfl⟩
          · exact .inl hcut
          · refine .inr ⟨k', rest', rfl, ?_⟩
            by_cases hk' : k'.Widens
            · exact .inr ⟨hk', hzero⟩
            · exact .inl hk'
      · exact ⟨[], _, .nil _, .inr ⟨k, rest, rfl, .inl hk⟩⟩

/-! ### Operands -/

/-- The operand that an argument designates, for each class of operands. A relative jump counts
from `next`. -/
inductive Operand.Designated (c : Code) (arg next : ℕ) : OperandKind → Operand → Prop
  | none : Designated c arg next .none .none
  | const {k : Const} (found : c.consts[arg]? = some k) : Designated c arg next .const (.const k)
  | name {s : String} (found : c.names[arg]? = some s) : Designated c arg next .name (.name s)
  | local {s : String} (found : c.varnames[arg]? = some s) :
      Designated c arg next .local (.local s)
  | free (bound : arg < c.cellCount) : Designated c arg next .free (.free arg)
  | jumpRel (bound : next + arg < c.bytecode.size) :
      Designated c arg next .jumpRel (.jump (next + arg))
  | jumpAbs (bound : arg < c.bytecode.size) : Designated c arg next .jumpAbs (.jump arg)
  | compare {op : CompareOp} (index : op.index = arg) :
      Designated c arg next .compare (.compare op)
  | int : Designated c arg next .int (.int arg)

/-- The error of an argument that is out of range, for each class of operands. -/
inductive DecodeError.Kind.OutOfRange (c : Code) (arg next : ℕ) :
    OperandKind → DecodeError.Kind → Prop
  | const (bound : c.consts.size ≤ arg) :
      OutOfRange c arg next .const (.indexOutOfRange "consts" arg c.consts.size)
  | name (bound : c.names.size ≤ arg) :
      OutOfRange c arg next .name (.indexOutOfRange "names" arg c.names.size)
  | local (bound : c.varnames.size ≤ arg) :
      OutOfRange c arg next .local (.indexOutOfRange "varnames" arg c.varnames.size)
  | free (bound : c.cellCount ≤ arg) :
      OutOfRange c arg next .free (.indexOutOfRange "cells" arg c.cellCount)
  | jumpRel (bound : c.bytecode.size ≤ next + arg) :
      OutOfRange c arg next .jumpRel (.jumpOutOfRange (next + arg))
  | jumpAbs (bound : c.bytecode.size ≤ arg) :
      OutOfRange c arg next .jumpAbs (.jumpOutOfRange arg)
  | compare (unknown : ∀ op : CompareOp, op.index ≠ arg) :
      OutOfRange c arg next .compare (.badCompare arg)

/-- The class of the operand of a byte. One that encodes no opcode takes any argument. -/
def OperandKind.ofByte (byte : UInt8) : OperandKind :=
  match Opcode.ofByte? byte with
  | some op => op.operandKind
  | Option.none => if haveArgument ≤ byte then .int else .none

lemma CompareOp.ofIndex?_eq_some_iff {n : ℕ} {op : CompareOp} :
    CompareOp.ofIndex? n = some op ↔ op.index = n := by
  constructor
  · intro h
    have hlt : n < 11 := (List.getElem?_eq_some_iff.mp h).1
    interval_cases n <;> cases h <;> rfl
  · rintro rfl
    exact ofIndex?_index op

/-- An argument designates an operand, or it is out of range. -/
lemma designated_or_outOfRange (c : Code) (arg next : ℕ) (operandKind : OperandKind) :
    (∃ o : Operand, o.Designated c arg next operandKind) ∨
      ∃ kind : DecodeError.Kind, kind.OutOfRange c arg next operandKind := by
  cases operandKind with
  | none => exact .inl ⟨_, .none⟩
  | int => exact .inl ⟨_, .int⟩
  | const =>
      rcases Nat.lt_or_ge arg c.consts.size with hlt | hle
      · exact .inl ⟨_, .const (Array.getElem?_eq_getElem hlt)⟩
      · exact .inr ⟨_, .const hle⟩
  | name =>
      rcases Nat.lt_or_ge arg c.names.size with hlt | hle
      · exact .inl ⟨_, .name (Array.getElem?_eq_getElem hlt)⟩
      · exact .inr ⟨_, .name hle⟩
  | «local» =>
      rcases Nat.lt_or_ge arg c.varnames.size with hlt | hle
      · exact .inl ⟨_, .local (Array.getElem?_eq_getElem hlt)⟩
      · exact .inr ⟨_, .local hle⟩
  | free =>
      rcases Nat.lt_or_ge arg c.cellCount with hlt | hle
      · exact .inl ⟨_, .free hlt⟩
      · exact .inr ⟨_, .free hle⟩
  | jumpRel =>
      rcases Nat.lt_or_ge (next + arg) c.bytecode.size with hlt | hle
      · exact .inl ⟨_, .jumpRel hlt⟩
      · exact .inr ⟨_, .jumpRel hle⟩
  | jumpAbs =>
      rcases Nat.lt_or_ge arg c.bytecode.size with hlt | hle
      · exact .inl ⟨_, .jumpAbs hlt⟩
      · exact .inr ⟨_, .jumpAbs hle⟩
  | compare =>
      by_cases hop : ∃ op : CompareOp, op.index = arg
      · obtain ⟨op, hop⟩ := hop
        exact .inl ⟨_, .compare hop⟩
      · exact .inr ⟨_, .compare (not_exists.mp hop)⟩

namespace Code

variable {c : Code} {arg next : ℕ} {o : Operand} {kind : DecodeError.Kind} {byte : UInt8}

lemma entry_of_size_le {α : Type} {table : String} {xs : Array α} (hle : xs.size ≤ arg) :
    entry table xs arg = .error (.indexOutOfRange table arg xs.size) := by
  rw [entry, Array.getElem?_eq_none hle]

lemma entry_of_getElem? {α : Type} {table : String} {xs : Array α} {x : α}
    (hx : xs[arg]? = some x) : entry table xs arg = .ok x := by
  rw [entry, hx]

lemma resolve_of_designated {op : Opcode} (h : o.Designated c arg next op.operandKind) :
    c.resolve op arg next = .ok o := by
  rw [resolve]
  generalize op.operandKind = operandKind at h
  cases h with
  | none => rfl
  | int => rfl
  | const found => rw [entry_of_getElem? found]; rfl
  | name found => rw [entry_of_getElem? found]; rfl
  | «local» found => rw [entry_of_getElem? found]; rfl
  | free bound => exact if_pos bound
  | jumpRel bound => exact if_pos bound
  | jumpAbs bound => exact if_pos bound
  | compare index => simp only [CompareOp.ofIndex?_eq_some_iff.mpr index]

lemma resolve_of_outOfRange {op : Opcode} (h : kind.OutOfRange c arg next op.operandKind) :
    c.resolve op arg next = .error kind := by
  rw [resolve]
  generalize op.operandKind = operandKind at h
  cases h with
  | const bound => rw [entry_of_size_le bound]; rfl
  | name bound => rw [entry_of_size_le bound]; rfl
  | «local» bound => rw [entry_of_size_le bound]; rfl
  | free bound => exact if_neg (Nat.not_lt.mpr bound)
  | jumpRel bound => exact if_neg (Nat.not_lt.mpr bound)
  | jumpAbs bound => exact if_neg (Nat.not_lt.mpr bound)
  | compare unknown =>
      have hnone : CompareOp.ofIndex? arg = none := by
        rw [Option.eq_none_iff_forall_ne_some]
        exact fun op hop => unknown op (CompareOp.ofIndex?_eq_some_iff.mp hop)
      simp only [hnone]

/-- The operand of an argument that designates one. -/
lemma operandOf_of_designated (h : o.Designated c arg next (OperandKind.ofByte byte)) :
    c.operandOf byte arg next = .ok o := by
  rw [OperandKind.ofByte] at h
  cases hop : Opcode.ofByte? byte with
  | some op =>
      simp only [hop] at h
      simp only [operandOf, hop, resolve_of_designated h]
  | none =>
      simp only [hop] at h
      simp only [operandOf, hop]
      split at h
      next hlarge => cases h; rw [if_pos hlarge]
      next hsmall => cases h; rw [if_neg hsmall]

/-- The error of an argument that is out of range. -/
lemma operandOf_of_outOfRange (h : kind.OutOfRange c arg next (OperandKind.ofByte byte)) :
    c.operandOf byte arg next = .error kind := by
  rw [OperandKind.ofByte] at h
  cases hop : Opcode.ofByte? byte with
  | some op =>
      simp only [hop] at h
      simp only [operandOf, hop, resolve_of_outOfRange h]
  | none =>
      simp only [hop] at h
      split at h <;> cases h

/-! ### Decoding chunk by chunk -/

variable {start pos upper : ℕ} {bs rest : List UInt8} {k : Chunk} {ps : List Chunk}

/-- Bytes that stand at a position are found there. -/
lemma getElem?_of_drop {xs : List UInt8} (h : c.bytecode.toList.drop pos = xs ++ rest) {j : ℕ}
    (hj : j < xs.length) : c.bytecode[pos + j]? = xs[j]? := by
  rw [← Array.getElem?_toList, ← List.getElem?_drop, h, List.getElem?_append_left hj]

lemma drop_of_drop {xs : List UInt8} (h : c.bytecode.toList.drop pos = xs ++ rest) :
    c.bytecode.toList.drop (pos + xs.length) = rest := by
  rw [← List.drop_drop, h, List.drop_left]

lemma bytes_of_wide {byte lo hi : UInt8} {large : haveArgument ≤ byte}
    (h : c.bytecode.toList.drop pos = (Chunk.wide byte lo hi large).bytes ++ rest) :
    c.bytecode[pos]? = some byte ∧ c.bytecode[pos + 1]? = some lo ∧
      c.bytecode[pos + 2]? = some hi :=
  ⟨getElem?_of_drop h (j := 0) (Nat.succ_pos _), getElem?_of_drop h (j := 1) (Nat.le_succ 2),
    getElem?_of_drop h (j := 2) (Nat.lt_succ_self 2)⟩

/-- **A chunk that widens nothing** is decoded to its operand. -/
lemma decodeFrom_whole (h : c.bytecode.toList.drop pos = k.bytes ++ rest) (hk : ¬ k.Widens) :
    c.decodeFrom start pos (upper * 65536) =
      (c.operandOf k.byte (k.argument upper) (pos + k.bytes.length)).map fun operand =>
        { offset := start, next := pos + k.bytes.length, byte := k.byte
          opcode := Opcode.ofByte? k.byte, operand, arg := k.argument upper } := by
  cases k with
  | plain byte small =>
      have hbyte : c.bytecode[pos]? = some byte := getElem?_of_drop h (j := 0) Nat.one_pos
      obtain ⟨hlt, hget⟩ := Array.getElem?_eq_some_iff.mp hbyte
      rw [decodeFrom, dif_pos hlt]
      simp only [hget, small, if_true]
      rfl
  | wide byte lo hi large =>
      obtain ⟨hbyte, hlo, hhi⟩ := bytes_of_wide h
      obtain ⟨hlt, hget⟩ := Array.getElem?_eq_some_iff.mp hbyte
      have hne : byte ≠ Opcode.extendedArg.toByte := hk
      rw [decodeFrom, dif_pos hlt]
      simp only [hget, UInt8.not_lt.mpr large, if_false, argumentAt?_eq hlo hhi, hne]
      rfl

/-- **A chunk that widens the next one** hands its argument on, if none was handed to it. -/
lemma decodeFrom_widening (h : c.bytecode.toList.drop pos = k.bytes ++ rest) (hk : k.Widens) :
    c.decodeFrom start pos (upper * 65536) =
      if upper = 0 then c.decodeFrom start (pos + k.bytes.length) (k.low * 65536)
      else .error .argumentOverflow := by
  have hlow := k.low_lt
  obtain ⟨lo, hi, large, rfl⟩ := hk.eq_wide
  obtain ⟨hbyte, hlo, hhi⟩ := bytes_of_wide h
  split
  next hzero =>
    rw [hzero, Nat.zero_mul]
    exact decodeFrom_extended hbyte hlo hhi
  next hpos =>
    obtain ⟨hlt, hget⟩ := Array.getElem?_eq_some_iff.mp hbyte
    have hover : 65535 < upper * 65536 + (lo.toNat + 256 * hi.toNat) := by omega
    rw [decodeFrom, dif_pos hlt]
    simp only [hget, UInt8.not_lt.mpr large, if_false, argumentAt?_eq hlo hhi, if_true, hover]

/-- **Bytes that are cut off** end unexpectedly. -/
lemma decodeFrom_cut (hcut : CutOff (c.bytecode.toList.drop pos)) (extended : ℕ) :
    c.decodeFrom start pos extended = .error .unexpectedEnd := by
  obtain ⟨k, hbegin, hne⟩ := hcut
  have hlength : c.bytecode.size - pos < k.bytes.length := by
    have hlt := Nat.lt_of_le_of_ne hbegin.length_le fun heq => hne (hbegin.eq_of_length heq)
    simpa using hlt
  rw [decodeFrom]
  split
  next hlt =>
    cases k with
    | plain byte small =>
        rw [Chunk.bytes, List.length_singleton] at hlength
        omega
    | wide byte lo hi large =>
        have hbyte : c.bytecode[pos] = byte := by
          rw [List.drop_eq_getElem_cons (by simpa using hlt), Chunk.bytes,
            List.cons_prefix_cons] at hbegin
          exact hbegin.1
        have hend : c.argumentAt? (pos + 1) = none := by
          rw [Option.eq_none_iff_forall_ne_some]
          intro arg harg
          have := argumentAt?_lt harg
          rw [Chunk.bytes, List.length_cons, List.length_cons, List.length_singleton] at hlength
          omega
        simp only [hbyte, UInt8.not_lt.mpr large, if_false, hend]
  next => rfl

/-- The chunks before an instruction contribute the argument of the last of them. -/
lemma decodeFrom_widened (h : Widened (c.bytecode.toList.drop pos) ps rest) :
    c.decodeFrom start pos 0 =
      c.decodeFrom start (pos + (ps.flatMap Chunk.bytes).length) (upperHalf ps * 65536) := by
  induction ps generalizing pos with
  | nil => rfl
  | cons p ps ih =>
      obtain ⟨hp, hps⟩ := List.forall_mem_cons.mp h.widens
      have hbytes : c.bytecode.toList.drop pos =
          p.bytes ++ (ps.flatMap Chunk.bytes ++ rest) := by
        rw [h.bytes, List.flatMap_cons, List.append_assoc]
      have hstep : c.decodeFrom start pos 0 =
          c.decodeFrom start (pos + p.bytes.length) (p.low * 65536) :=
        (congrArg _ (Nat.zero_mul _).symm).trans (decodeFrom_widening hbytes hp)
      rw [hstep, List.flatMap_cons, List.length_append, ← Nat.add_assoc]
      cases ps with
      | nil => rfl
      | cons q ps =>
          obtain ⟨hzero, hzeros⟩ := List.forall_mem_cons.mp h.zeros
          have hrest : Widened (c.bytecode.toList.drop (pos + p.bytes.length)) (q :: ps) rest :=
            ⟨drop_of_drop hbytes, hps, hzeros⟩
          rw [hzero, Nat.zero_mul, ih hrest, upperHalf_cons hzero]

/-! ### Decoding -/

/-- Where the instruction ends that begins at `offset` with `ps` and consists of `k`. -/
def endOf (offset : ℕ) (ps : List Chunk) (k : Chunk) : ℕ :=
  offset + (ps.flatMap Chunk.bytes).length + k.bytes.length

/-- At the offset stand `ps`, which widen the argument, and the whole chunk `k`, which does not. -/
def Whole (c : Code) (offset : ℕ) (ps : List Chunk) (k : Chunk) : Prop :=
  ¬ k.Widens ∧ ∃ rest, Widened (c.bytecode.toList.drop offset) ps (k.bytes ++ rest)

/-- The bytes at the offset run out before the instruction is whole. -/
def RunsOut (c : Code) (offset : ℕ) : Prop :=
  ∃ ps rest, Widened (c.bytecode.toList.drop offset) ps rest ∧ CutOff rest

/-- At the offset stands a chunk that widens an argument by something other than zero, and another
one after it. -/
def Overflows (c : Code) (offset : ℕ) : Prop :=
  ∃ (ps : List Chunk) (k : Chunk) (rest : List UInt8),
    Widened (c.bytecode.toList.drop offset) ps (k.bytes ++ rest) ∧ upperHalf ps ≠ 0 ∧ k.Widens

/-- The instruction at the offset, according to the grammar. -/
inductive Spells (c : Code) (offset : ℕ) : Instruction → Prop
  | intro {ps : List Chunk} {k : Chunk} {operand : Operand} (whole : c.Whole offset ps k)
      (designated : operand.Designated c (k.argument (upperHalf ps)) (endOf offset ps k)
        (OperandKind.ofByte k.byte)) :
      Spells c offset
        { offset, next := endOf offset ps k, byte := k.byte, opcode := Opcode.ofByte? k.byte
          operand, arg := k.argument (upperHalf ps) }

/-- The error of a whole instruction whose operand is out of range. -/
inductive Misses (c : Code) (offset : ℕ) : DecodeError.Kind → Prop
  | intro {ps : List Chunk} {k : Chunk} {kind : DecodeError.Kind} (whole : c.Whole offset ps k)
      (outOfRange : kind.OutOfRange c (k.argument (upperHalf ps)) (endOf offset ps k)
        (OperandKind.ofByte k.byte)) :
      Misses c offset kind

/-- The ways in which the bytes at the offset depart from the grammar, with the error of each. -/
inductive Departs (c : Code) (offset : ℕ) : DecodeError.Kind → Prop
  | overflows (h : c.Overflows offset) : Departs c offset .argumentOverflow
  | runsOut (h : c.RunsOut offset) : Departs c offset .unexpectedEnd
  | misses {kind : DecodeError.Kind} (h : c.Misses offset kind) : Departs c offset kind

variable {offset : ℕ}

/-- What stands at the offset is spelled by the grammar or departs from it. -/
lemma spells_or_departs (c : Code) (offset : ℕ) :
    (∃ i, c.Spells offset i) ∨ ∃ kind, c.Departs offset kind := by
  obtain ⟨ps, rest, hw, hcut | ⟨k, rest', rfl, hk | ⟨hk, hupper⟩⟩⟩ :=
    layout_cases (c.bytecode.toList.drop offset)
  · exact .inr ⟨_, .runsOut ⟨ps, rest, hw, hcut⟩⟩
  · have hwhole : c.Whole offset ps k := ⟨hk, rest', hw⟩
    rcases designated_or_outOfRange c (k.argument (upperHalf ps)) (endOf offset ps k)
      (OperandKind.ofByte k.byte) with ⟨o, ho⟩ | ⟨kind, hkind⟩
    · exact .inl ⟨_, .intro hwhole ho⟩
    · exact .inr ⟨kind, .misses (.intro hwhole hkind)⟩
  · exact .inr ⟨_, .overflows ⟨ps, k, rest', hw, hupper, hk⟩⟩

/-- A whole instruction is decoded to its operand, or fails with the error of its operand. -/
lemma decodeFrom_of_whole (h : c.Whole offset ps k) :
    c.decodeFrom offset offset 0 =
      (c.operandOf k.byte (k.argument (upperHalf ps)) (endOf offset ps k)).map fun operand =>
        { offset, next := endOf offset ps k, byte := k.byte, opcode := Opcode.ofByte? k.byte
          operand, arg := k.argument (upperHalf ps) } := by
  obtain ⟨hk, rest, hw⟩ := h
  rw [decodeFrom_widened hw, decodeFrom_whole (drop_of_drop hw.bytes) hk]
  rfl

lemma decode_of_spells {i : Instruction} (h : c.Spells offset i) : c.decode offset = .ok i := by
  obtain ⟨whole, designated⟩ := h
  rw [decode, decodeFrom_of_whole whole, operandOf_of_designated designated]
  rfl

lemma decode_of_departs (h : c.Departs offset kind) :
    c.decode offset = .error ⟨offset, kind⟩ := by
  cases h with
  | overflows h =>
      obtain ⟨ps, k, rest, hw, hupper, hk⟩ := h
      rw [decode, decodeFrom_widened hw, decodeFrom_widening (drop_of_drop hw.bytes) hk,
        if_neg hupper]
  | runsOut h =>
      obtain ⟨ps, rest, hw, hcut⟩ := h
      rw [← drop_of_drop hw.bytes] at hcut
      rw [decode, decodeFrom_widened hw, decodeFrom_cut hcut]
  | misses h =>
      obtain ⟨whole, outOfRange⟩ := h
      rw [decode, decodeFrom_of_whole whole, operandOf_of_outOfRange outOfRange]
      rfl

/-- **The instructions that are decoded** are those that are spelled. -/
lemma decode_ok_iff {i : Instruction} : c.decode offset = .ok i ↔ c.Spells offset i := by
  refine ⟨fun h => ?_, decode_of_spells⟩
  rcases c.spells_or_departs offset with ⟨j, hj⟩ | ⟨kind, hkind⟩
  · rw [decode_of_spells hj] at h
    cases h
    exact hj
  · rw [decode_of_departs hkind] at h
    cases h

/-- **The errors of decoding** are the departures from the grammar. -/
lemma decode_error_iff {e : DecodeError} :
    c.decode offset = .error e ↔ e.offset = offset ∧ c.Departs offset e.kind := by
  constructor
  · intro h
    rcases c.spells_or_departs offset with ⟨j, hj⟩ | ⟨kind, hkind⟩
    · rw [decode_of_spells hj] at h
      cases h
    · rw [decode_of_departs hkind] at h
      cases h
      exact ⟨rfl, hkind⟩
  · rintro ⟨rfl, h⟩
    exact decode_of_departs h

/-- The errors of operands are none of the stream. -/
lemma Misses.kind_ne (h : c.Misses offset kind) :
    kind ≠ .argumentOverflow ∧ kind ≠ .unexpectedEnd := by
  obtain ⟨-, outOfRange⟩ := h
  generalize OperandKind.ofByte _ = operandKind at outOfRange
  cases outOfRange <;> exact ⟨by simp, by simp⟩

lemma departs_overflow_iff : c.Departs offset .argumentOverflow ↔ c.Overflows offset := by
  refine ⟨fun h => ?_, .overflows⟩
  cases h with
  | overflows h => exact h
  | misses h => exact absurd rfl h.kind_ne.1

lemma departs_end_iff : c.Departs offset .unexpectedEnd ↔ c.RunsOut offset := by
  refine ⟨fun h => ?_, .runsOut⟩
  cases h with
  | runsOut h => exact h
  | misses h => exact absurd rfl h.kind_ne.2

lemma departs_operand_iff (hoverflow : kind ≠ .argumentOverflow) (hend : kind ≠ .unexpectedEnd) :
    c.Departs offset kind ↔ c.Misses offset kind := by
  refine ⟨fun h => ?_, .misses⟩
  cases h with
  | overflows _ => exact absurd rfl hoverflow
  | runsOut _ => exact absurd rfl hend
  | misses h => exact h

/-- What decoding at an offset gives, by what stands there. -/
structure FollowsGrammar (c : Code) (offset : ℕ) : Prop where
  /-- An instruction is given exactly if one is spelled, and it is that one. -/
  ok_iff : ∀ i, c.decode offset = .ok i ↔ c.Spells offset i
  /-- An error tells where the instruction began. -/
  error_offset : ∀ e, c.decode offset = .error e → e.offset = offset
  overflow_iff : c.decode offset = .error ⟨offset, .argumentOverflow⟩ ↔ c.Overflows offset
  end_iff : c.decode offset = .error ⟨offset, .unexpectedEnd⟩ ↔ c.RunsOut offset
  /-- All other errors are those of the operand of a whole instruction. -/
  operand_iff : ∀ kind, kind ≠ .argumentOverflow → kind ≠ .unexpectedEnd →
    (c.decode offset = .error ⟨offset, kind⟩ ↔ c.Misses offset kind)

end Code

open Code in
/-- **Decoding follows the grammar.** At any offset of any bytes, decoding gives an instruction
exactly if the bytes from there on are any number of chunks that widen the argument, all but the
last of them zero, and one whole chunk that does not, whose operand is in range; it is that
instruction. Otherwise the argument overflows exactly if what has been widened already is widened
again, the bytes end unexpectedly exactly if they run out before that and before the instruction is
whole, and any other error is that of the operand of a whole instruction. -/
theorem decoding_follows_grammar (c : Code) (offset : ℕ) : c.FollowsGrammar offset where
  ok_iff i := decode_ok_iff
  error_offset e he := (decode_error_iff.mp he).1
  overflow_iff := by rw [decode_error_iff, departs_overflow_iff, and_iff_right rfl]
  end_iff := by rw [decode_error_iff, departs_end_iff, and_iff_right rfl]
  operand_iff kind hoverflow hend := by
    rw [decode_error_iff, departs_operand_iff hoverflow hend, and_iff_right rfl]

end StackVM
