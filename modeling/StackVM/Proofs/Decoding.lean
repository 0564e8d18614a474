/-
What decoding gives. An instruction that was decoded lies inside the stream of its code
object, and its operand is of the kind that its opcode asks for, in bounds.

* `Operand.Fits`: an operand is of a kind, and in bounds;
* `Instruction.Decoded`: what holds of an instruction that was decoded at an offset;
* `Code.decode_decoded`: it holds of every such instruction.
-/
import Mathlib.Tactic.Lemma
import StackVM.Machine.Execute

namespace StackVM

/-! ### Operands -/

/-- The operand is one of the given kind; a cell and a jump target are in bounds. -/
def Operand.Fits (c : Code) : OperandKind → Operand → Prop
  | .none, o => o = .none
  | .const, o => ∃ k, o = .const k
  | .name, o => ∃ s, o = .name s
  | .local, o => ∃ s, o = .local s
  | .free, o => ∃ index, o = .free index ∧ index < c.cellCount
  | .jumpRel, o => ∃ target, o = .jump target ∧ target < c.bytecode.size
  | .jumpAbs, o => ∃ target, o = .jump target ∧ target < c.bytecode.size
  | .compare, o => ∃ op, o = .compare op
  | .int, o => ∃ n, o = .int n

namespace Code

variable {c : Code}

/-- An entry that is found is made into an operand. -/
lemma entry_map_ok {α : Type} {table : String} {xs : Array α} {index : Nat} {g : α → Operand}
    {o : Operand} (h : (entry table xs index).map g = .ok o) :
    ∃ x, xs[index]? = some x ∧ o = g x := by
  rw [entry] at h
  split at h
  next x hx =>
    cases h
    exact ⟨x, hx, rfl⟩
  next => cases h

lemma jumpTarget_ok {target : Nat} {o : Operand} (h : c.jumpTarget target = .ok o) :
    ∃ t, o = .jump t ∧ t < c.bytecode.size := by
  rw [jumpTarget] at h
  split at h
  next hlt =>
    cases h
    exact ⟨target, rfl, hlt⟩
  next => cases h

/-- An argument that is resolved gives an operand of the kind that the opcode asks for. -/
lemma resolve_fits {op : Opcode} {arg next : Nat} {o : Operand}
    (h : c.resolve op arg next = .ok o) : o.Fits c op.operandKind := by
  rw [resolve] at h
  generalize op.operandKind = kind at h
  cases kind with
  | none =>
      cases h
      rfl
  | int =>
      cases h
      exact ⟨arg, rfl⟩
  | const =>
      obtain ⟨k, -, rfl⟩ := entry_map_ok h
      exact ⟨k, rfl⟩
  | name =>
      obtain ⟨s, -, rfl⟩ := entry_map_ok h
      exact ⟨s, rfl⟩
  | «local» =>
      obtain ⟨s, -, rfl⟩ := entry_map_ok h
      exact ⟨s, rfl⟩
  | free =>
      dsimp only at h
      split at h
      next hlt =>
        cases h
        exact ⟨arg, rfl, hlt⟩
      next => cases h
  | jumpRel => exact jumpTarget_ok h
  | jumpAbs => exact jumpTarget_ok h
  | compare =>
      dsimp only at h
      split at h
      next op' _ =>
        cases h
        exact ⟨op', rfl⟩
      next => cases h

end Code

/-- An operand that has a target has one in bounds. -/
lemma Operand.Fits.target_lt {c : Code} {kind : OperandKind} {o : Operand} {t : Nat}
    (h : o.Fits c kind) (ht : o.target? = some t) : t < c.bytecode.size := by
  have hjump : ∀ target, o = .jump target ∧ target < c.bytecode.size → t < c.bytecode.size := by
    rintro target ⟨rfl, hlt⟩
    cases ht
    exact hlt
  cases kind with
  | jumpRel => exact h.elim hjump
  | jumpAbs => exact h.elim hjump
  | free =>
      obtain ⟨index, rfl, -⟩ := h
      cases ht
  | none =>
      obtain rfl : o = .none := h
      cases ht
  | _ =>
      obtain ⟨x, rfl⟩ := h
      cases ht

/-! ### Instructions -/

/-- What holds of an instruction decoded at `start`. -/
structure Instruction.Decoded (c : Code) (start : Nat) (i : Instruction) : Prop where
  offset : i.offset = start
  lt_next : start < i.next
  next_le : i.next ≤ c.bytecode.size
  opcode : i.opcode = Opcode.ofByte? i.byte
  operand : c.operandOf i.byte i.arg i.next = .ok i.operand

namespace Code

variable {c : Code}

/-- The argument at a position lies inside the stream. -/
lemma argumentAt?_lt {pos arg : Nat} (h : c.argumentAt? pos = some arg) :
    pos + 1 < c.bytecode.size := by
  rw [argumentAt?] at h
  split at h
  next lo hi _ hhi => exact (Array.getElem?_eq_some_iff.mp hhi).1
  next => cases h

lemma map_operand_ok {x : Except DecodeError.Kind Operand} {g : Operand → Instruction}
    {i : Instruction} (h : x.map g = .ok i) : ∃ o, x = .ok o ∧ i = g o := by
  cases x with
  | error e => cases h
  | ok o =>
      cases h
      exact ⟨o, rfl, rfl⟩

/-- Prefixes only move the position on. -/
lemma decodeFrom_decoded {start pos extended : Nat} {i : Instruction} (hpos : start ≤ pos)
    (h : c.decodeFrom start pos extended = .ok i) : i.Decoded c start := by
  fun_induction decodeFrom c start pos extended with
  | case1 pos extended hlt byte hplain =>
      obtain ⟨o, ho, rfl⟩ := map_operand_ok h
      exact ⟨rfl, by dsimp only; omega, hlt, rfl, ho⟩
  | case2 => cases h
  | case3 => cases h
  | case4 pos extended _ _ _ low _ arg _ _ ih => exact ih (by omega) h
  | case5 pos extended hlt byte _ low hlow arg _ =>
      have hend := argumentAt?_lt hlow
      obtain ⟨o, ho, rfl⟩ := map_operand_ok h
      exact ⟨rfl, by dsimp only; omega, by dsimp only; omega, rfl, ho⟩
  | case6 => cases h

/-- **An instruction that is decoded** lies inside the stream, and its operand is resolved. -/
theorem decode_decoded {start : Nat} {i : Instruction} (h : c.decode start = .ok i) :
    i.Decoded c start := by
  rw [decode] at h
  split at h
  next i' hi =>
    cases h
    exact decodeFrom_decoded (Nat.le_refl start) hi
  next => cases h

end Code

namespace Instruction.Decoded

variable {c : Code} {start : Nat} {i : Instruction}

/-- The operand is of the kind that the opcode asks for. -/
lemma fits (h : i.Decoded c start) {op : Opcode} (hop : i.opcode = some op) :
    i.operand.Fits c op.operandKind := by
  have hoperand := h.operand
  rw [Code.operandOf, ← h.opcode, hop] at hoperand
  exact Code.resolve_fits hoperand

/-- A jump target is in bounds; an unknown opcode has none. -/
lemma target_lt (h : i.Decoded c start) {t : Nat} (ht : i.operand.target? = some t) :
    t < c.bytecode.size := by
  cases hop : i.opcode with
  | some op => exact (h.fits hop).target_lt ht
  | none =>
      have hoperand := h.operand
      rw [Code.operandOf, ← h.opcode, hop] at hoperand
      rw [← Except.ok.inj hoperand] at ht
      split at ht <;> cases ht

end Instruction.Decoded

end StackVM
