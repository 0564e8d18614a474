/-
The instructions of a stream fill it without gaps. Walking through the bytes of any code object,
from the start and on from where each instruction ends, comes to an end: at the end of the bytes, or
at the first defect, which is reported once. Up to there every byte belongs to exactly one
instruction, and so to one line of the listing.

* `Cursor`, `Code.advance?`, `Code.Walks`: the walk, step by step and as a whole;
* `Instruction.Fill`: instructions fill the bytes between two offsets;
* `Instruction.Fill.existsUnique`: each byte there belongs to one of them;
* `Code.TiledFrom.cons`, `Code.tiledFrom_instructionsFrom`: **one step**, and the whole walk;
* `stream_is_tiled`: the items of every code object, and its listing.
-/
import Mathlib
import StackVM.Listing
import StackVM.Proofs.DecoderGrammar

namespace StackVM

/-! ### Walks -/

/-- Where a walk through a stream stands: the offset of the next instruction, and whether a defect
was reported. -/
structure Cursor where
  offset : ℕ
  failed : Bool

namespace Code

/-- The next item of a walk and where it stands after that, or nothing at the end and after a
defect. -/
def advance? (c : Code) (s : Cursor) : Option (Except DecodeError Instruction × Cursor) :=
  if s.failed || c.bytecode.size ≤ s.offset then none
  else
    match c.decode s.offset with
    | .ok i => some (.ok i, { s with offset := i.next })
    | .error e => some (.error e, { s with failed := true })

/-- The walk gives these items, one in each step, and then nothing more. -/
inductive Walks (c : Code) : Cursor → List (Except DecodeError Instruction) → Prop
  | done {s : Cursor} (h : c.advance? s = none) : Walks c s []
  | step {s s' : Cursor} {x : Except DecodeError Instruction}
      {xs : List (Except DecodeError Instruction)} (h : c.advance? s = some (x, s'))
      (rest : Walks c s' xs) : Walks c s (x :: xs)

variable {c : Code} {offset : ℕ}

lemma advance?_of_size_le (h : c.bytecode.size ≤ offset) : c.advance? ⟨offset, false⟩ = none := by
  simp [advance?, h]

lemma advance?_of_failed (c : Code) (offset : ℕ) : c.advance? ⟨offset, true⟩ = none := by
  simp [advance?]

lemma advance?_of_ok {i : Instruction} (hlt : offset < c.bytecode.size)
    (hd : c.decode offset = .ok i) :
    c.advance? ⟨offset, false⟩ = some (.ok i, ⟨i.next, false⟩) := by
  simp [advance?, hlt, hd]

lemma advance?_of_error {e : DecodeError} (hlt : offset < c.bytecode.size)
    (hd : c.decode offset = .error e) :
    c.advance? ⟨offset, false⟩ = some (.error e, ⟨offset, true⟩) := by
  simp [advance?, hlt, hd]

end Code

/-! ### Instructions without gaps -/

/-- The instructions fill the bytes from one offset to another: each has at least one byte and
begins where the one before it ends. -/
inductive Instruction.Fill : ℕ → List Instruction → ℕ → Prop
  | nil (a : ℕ) : Fill a [] a
  | cons {i : Instruction} {is : List Instruction} {b : ℕ} (nonempty : i.offset < i.next)
      (rest : Fill i.next is b) : Fill i.offset (i :: is) b

namespace Instruction.Fill

variable {a b p : ℕ} {is : List Instruction}

/-- No instruction begins before the others. -/
lemma le_offset (h : Fill a is b) : ∀ i ∈ is, a ≤ i.offset := by
  induction h with
  | nil a => exact List.forall_mem_nil _
  | cons nonempty _ ih =>
      refine List.forall_mem_cons.mpr ⟨Nat.le_refl _, fun j hj => ?_⟩
      exact Nat.le_of_lt (Nat.lt_of_lt_of_le nonempty (ih j hj))

/-- **Each byte belongs to one instruction.** -/
lemma existsUnique (h : Fill a is b) (ha : a ≤ p) (hb : p < b) :
    ∃! k : ℕ, ∃ i : Instruction, is[k]? = some i ∧ i.offset ≤ p ∧ p < i.next := by
  induction h with
  | nil a => exact absurd hb (Nat.not_lt.mpr ha)
  | @cons i is b nonempty rest ih =>
      rcases Nat.lt_or_ge p i.next with hlt | hge
      · -- the first one has it, and the others begin later
        refine ⟨0, ⟨i, rfl, ha, hlt⟩, ?_⟩
        rintro (_ | k) ⟨j, hj, hle, -⟩
        · rfl
        · have := rest.le_offset j (List.mem_of_getElem? hj)
          omega
      · obtain ⟨k, ⟨j, hj, hbounds⟩, hunique⟩ := ih hge hb
        refine ⟨k + 1, ⟨j, hj, hbounds⟩, ?_⟩
        rintro (_ | k') ⟨j', hj', hle, hlt⟩
        · cases hj'
          omega
        · rw [hunique k' ⟨j', hj', hle, hlt⟩]

end Instruction.Fill

/-! ### The walk through a code object -/

/-- An opcode is encoded by no other byte than its own. -/
lemma Opcode.toByte_of_ofByte? {byte : UInt8} {op : Opcode} (h : ofByte? byte = some op) :
    op.toByte = byte := by
  have hall : ∀ n < 256, ∀ op ∈ ofByte? (UInt8.ofNat n), op.toByte = UInt8.ofNat n := by
    decide +kernel
  have hbyte := hall byte.toNat byte.toNat_lt op
  rw [UInt8.ofNat_toNat] at hbyte
  exact hbyte h

namespace Code

variable {c : Code} {offset stop : ℕ} {i : Instruction}
  {items : List (Except DecodeError Instruction)} {is : List Instruction}

/-- A decoded instruction is none that widens the argument of another. -/
lemma opcode_ne_extendedArg (h : c.decode offset = .ok i) : i.opcode ≠ some .extendedArg := by
  obtain ⟨whole, -⟩ := decode_ok_iff.mp h
  exact fun hop => whole.1 (Opcode.toByte_of_ofByte? hop).symm

/-- The walk from `offset` on gives `items`: the instructions `is`, which fill the bytes up to
`stop`, and then the defect that is met there, unless the bytes end. -/
structure TiledFrom (c : Code) (offset : ℕ) (items : List (Except DecodeError Instruction))
    (is : List Instruction) (stop : ℕ) : Prop where
  walks : c.Walks ⟨offset, false⟩ items
  length_le : offset + items.length ≤ c.bytecode.size
  fill : Instruction.Fill offset is stop
  decoded : ∀ i ∈ is, c.decode i.offset = .ok i
  ends : (stop = c.bytecode.size ∧ items = is.map .ok) ∨
    stop < c.bytecode.size ∧ ∃ e, c.decode stop = .error e ∧ items = is.map .ok ++ [.error e]

lemma tiledFrom_end (c : Code) : c.TiledFrom c.bytecode.size [] [] c.bytecode.size where
  walks := .done (advance?_of_size_le (Nat.le_refl _))
  length_le := Nat.le_refl _
  fill := .nil _
  decoded := List.forall_mem_nil _
  ends := .inl ⟨rfl, rfl⟩

lemma tiledFrom_defect {e : DecodeError} (hlt : offset < c.bytecode.size)
    (hd : c.decode offset = .error e) : c.TiledFrom offset [.error e] [] offset where
  walks := .step (advance?_of_error hlt hd) (.done (c.advance?_of_failed offset))
  length_le := hlt
  fill := .nil _
  decoded := List.forall_mem_nil _
  ends := .inr ⟨hlt, e, hd, rfl⟩

/-- **One step of the walk.** -/
lemma TiledFrom.cons (hlt : offset < c.bytecode.size) (hd : c.decode offset = .ok i)
    (h : c.TiledFrom i.next items is stop) :
    c.TiledFrom offset (.ok i :: items) (i :: is) stop := by
  have hi := decode_decoded hd
  have hoffset := hi.offset
  have hnext := hi.lt_next
  subst hoffset
  refine ⟨.step (advance?_of_ok hlt hd) h.walks, ?_, .cons hnext h.fill,
    List.forall_mem_cons.mpr ⟨hd, h.decoded⟩, ?_⟩
  · have := h.length_le
    rw [List.length_cons]
    omega
  · rcases h.ends with ⟨hstop, rfl⟩ | ⟨hstop, e, he, rfl⟩
    · exact .inl ⟨hstop, rfl⟩
    · exact .inr ⟨hstop, e, he, rfl⟩

/-- **The whole walk**: as many steps as there are bytes left are enough. -/
lemma tiledFrom_instructionsFrom {fuel : ℕ} (hle : offset ≤ c.bytecode.size)
    (hfuel : c.bytecode.size ≤ offset + fuel) :
    ∃ is stop, c.TiledFrom offset (c.instructionsFrom fuel offset) is stop := by
  induction fuel generalizing offset with
  | zero =>
      obtain rfl : offset = c.bytecode.size := Nat.le_antisymm hle hfuel
      exact ⟨[], _, c.tiledFrom_end⟩
  | succ fuel ih =>
      rw [instructionsFrom]
      rcases Nat.lt_or_ge offset c.bytecode.size with hlt | hge
      · rw [if_neg (Nat.not_le.mpr hlt)]
        cases hd : c.decode offset with
        | error e => exact ⟨[], offset, tiledFrom_defect hlt hd⟩
        | ok i =>
            have hi := decode_decoded hd
            have hnext := hi.lt_next
            obtain ⟨is, stop, h⟩ := ih hi.next_le (by omega)
            exact ⟨i :: is, stop, h.cons hlt hd⟩
      · obtain rfl : offset = c.bytecode.size := Nat.le_antisymm hle hge
        rw [if_pos hge]
        exact ⟨[], _, c.tiledFrom_end⟩

/-- The offset that an item tells. -/
def itemOffset : Except DecodeError Instruction → ℕ
  | .ok i => i.offset
  | .error e => e.offset

/-- The line of an item begins with its offset. -/
lemma entryLine_eq (c : Code) (x : Except DecodeError Instruction) :
    ∃ rest, c.entryLine x = Text.alignRight 4 (toString (itemOffset x)) ++ " " ++ rest := by
  cases x with
  | ok i =>
      simp only [entryLine, Instruction.line, itemOffset, String.append_assoc]
      exact ⟨_, rfl⟩
  | error e =>
      have hblank : " <" = " " ++ "<" := rfl
      refine ⟨"<" ++ e.message ++ ">\n", ?_⟩
      simp only [entryLine, itemOffset, toString, hblank, String.append_assoc]

lemma listing_eq (c : Code) :
    c.listing = String.join (c.instructions.map c.entryLine) ++ Code.poolListing c.consts := by
  cases c
  rfl

end Code

/-- **What the items of a code object are**: `is` are the instructions among them, which end at
`stop`. -/
structure Code.Tiled (c : Code) (is : List Instruction) (stop : ℕ) : Prop where
  /-- Steps one after the other give these items and then no more. -/
  walks : c.Walks ⟨0, false⟩ c.instructions
  length_le : c.instructions.length ≤ c.bytecode.size
  /-- The instructions follow each other from the start. -/
  fill : Instruction.Fill 0 is stop
  decoded : ∀ i ∈ is, c.decode i.offset = .ok i ∧ i.opcode ≠ some .extendedArg
  /-- The last of them ends with the bytes, or at the only defect, which is the last item. -/
  ends : (stop = c.bytecode.size ∧ c.instructions = is.map .ok) ∨
    stop < c.bytecode.size ∧ ∃ kind, c.instructions = is.map .ok ++ [.error ⟨stop, kind⟩]
  /-- Each byte before that belongs to one instruction. -/
  covers : ∀ p < stop, ∃! k : ℕ, ∃ i : Instruction, is[k]? = some i ∧ i.offset ≤ p ∧ p < i.next
  /-- The listing has one entry for each item, which begins with the offset of the item. -/
  listing : c.listing = String.join (c.instructions.map c.entryLine) ++ Code.poolListing c.consts
  entries : ∀ x ∈ c.instructions, ∃ rest,
    c.entryLine x = Text.alignRight 4 (toString (Code.itemOffset x)) ++ " " ++ rest

open Code in
/-- **The instructions of a code object fill its stream.** Whatever its bytes are, walking through
them ends after at most as many items as there are bytes. The instructions begin at the start, each
where the one before it ended, and none only widens the argument of another; the last one ends with
the bytes, or else a single defect is reported after it, at the offset where it ended. So each byte
up to there belongs to exactly one item and to the entry of the listing that is written from it. -/
theorem stream_is_tiled (c : Code) : ∃ is stop, c.Tiled is stop := by
  obtain ⟨is, stop, h⟩ :=
    tiledFrom_instructionsFrom (Nat.zero_le c.bytecode.size) (Nat.le_add_left _ 0)
  refine ⟨is, stop, h.walks, ?_, h.fill, ?_, ?_, ?_, c.listing_eq, ?_⟩
  · exact (Nat.zero_add _).symm.trans_le h.length_le
  · exact fun i hi => ⟨h.decoded i hi, opcode_ne_extendedArg (h.decoded i hi)⟩
  · rcases h.ends with hend | ⟨hlt, ⟨offset, kind⟩, he, hitems⟩
    · exact .inl hend
    · obtain rfl : offset = stop := (decode_error_iff.mp he).1
      exact .inr ⟨hlt, kind, hitems⟩
  · exact fun p hp => h.fill.existsUnique (Nat.zero_le p) hp
  · exact fun x _ => c.entryLine_eq x

end StackVM
