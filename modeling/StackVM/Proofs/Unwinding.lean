/-
What unwinding does with a signal whose payload is in the registers: the innermost block
that accepts the signal takes it, and the blocks above that one are gone.

* `Pending.signal`, `Pending.fill`: a signal that waits, and the registers it fills;
* `Signal.Carried`: the registers hold the payload of a signal, and nothing else;
* `Registers.Fit`: they do so if there is a signal, and are empty if there is none;
* `BlockKind.Accepts`: the signals that a block takes;
* `Block.unwind_cases`: the innermost block that accepts a signal takes it, or no block
  does;
* `Block.unwind_append`: the blocks above that one only cut the operand stack.
-/
import Mathlib.Tactic.Lemma
import StackVM.Machine.Unwind

namespace StackVM

/-! ### Signals and their payload -/

namespace Pending

/-- The signal that waits, if there is one. -/
def signal : Pending → Option Signal
  | .none => Option.none
  | .returning _ => some .returning
  | .raising _ => some .raising
  | .breaking => some .breaking
  | .continuing target => some (.continuing target)

/-- The registers with the payload of what waits. -/
def fill (p : Pending) (regs : Registers) : Registers :=
  match p with
  | .returning v => { regs with result := some v }
  | .raising r => { regs with raised := some r }
  | _ => regs

end Pending

/-- The registers hold the payload of a signal, and nothing else. -/
def Signal.Carried (regs : Registers) : Signal → Prop
  | .returning => regs.raised = none ∧ ∃ v, regs.result = some v
  | .raising => (∃ r, regs.raised = some r) ∧ regs.result = none
  | .breaking => regs.raised = none ∧ regs.result = none
  | .continuing _ => regs.raised = none ∧ regs.result = none

/-- The registers hold the payload of the signal under way; without one they are empty. -/
def Registers.Fit (regs : Registers) : Option Signal → Prop
  | none => regs = {}
  | some s => s.Carried regs

/-- What waited fills empty registers with its payload. -/
lemma Pending.fit_fill (p : Pending) : (p.fill {}).Fit p.signal := by
  cases p with
  | none => rfl
  | returning v => exact ⟨rfl, v, rfl⟩
  | raising r => exact ⟨⟨r, rfl⟩, rfl⟩
  | breaking => exact ⟨rfl, rfl⟩
  | continuing target => exact ⟨rfl, rfl⟩

/-- An exception that is put into empty registers is carried by them. -/
lemma Signal.carried_raising {regs regs' : Registers} {r : Raised}
    (h : regs' = { regs with raised := some r }) (hempty : regs = {}) :
    Signal.Carried regs' .raising := by
  rw [h, hempty]
  exact ⟨⟨r, rfl⟩, rfl⟩

/-- Registers that hold nothing are empty. -/
lemma Registers.eq_empty {regs : Registers} (h : regs.raised = none ∧ regs.result = none) :
    regs = {} := by
  obtain ⟨raised, result⟩ := regs
  obtain ⟨rfl, rfl⟩ := h
  rfl

/-! ### Blocks -/

/-- A loop takes breaks and continues, an except block exceptions, a finally block every
signal, and the block of a handler that is running none. -/
def BlockKind.Accepts : BlockKind → Signal → Prop
  | .loop, s => s ≠ .returning ∧ s ≠ .raising
  | .except, s => s = .raising
  | .finally, _ => True
  | .cleanup _, _ => False

namespace Block

variable {s : Signal} {regs : Registers}

/-- A block with the blocks `below` it takes a signal that the registers carry. -/
inductive Takes (b : Block) (below : List Block) (regs : Registers) : Signal → Unwinding → Prop
  where
  /-- The loop goes on. -/
  | repeats {target : Nat} {stack : List Value} (kind : b.kind = .loop) :
      Takes b below regs (.continuing target)
        { stack, blocks := b :: below, target := some target, registers := {}
          unwound := .continued }
  /-- The loop is left. -/
  | exits {stack : List Value} (kind : b.kind = .loop) :
      Takes b below regs .breaking
        { stack, blocks := below, target := some b.handler, registers := {}
          unwound := .consumed b.kind b.handler }
  /-- The signal waits while the handler runs. -/
  | handles {s : Signal} {pending : Pending} {stack : List Value} {level : Nat}
      (kind : b.kind = .except ∨ b.kind = .finally) (signal : pending.signal = some s)
      (fill : pending.fill {} = regs) :
      Takes b below regs s
        { stack, blocks := ⟨.cleanup pending, b.handler, level⟩ :: below
          target := some b.handler, registers := {}, unwound := .consumed b.kind b.handler }

lemma Takes.unwound_ne {b : Block} {below : List Block} {u : Unwinding}
    (h : Takes b below regs s u) : u.unwound ≠ .escaped := by
  cases h <;> nofun

lemma Takes.registers_eq {b : Block} {below : List Block} {u : Unwinding}
    (h : Takes b below regs s u) : u.registers = {} := by
  cases h <;> rfl

/-- The signals for which the handler of a block runs wait for its end. -/
lemma park?_cases (kind : BlockKind) (hs : s.Carried regs) :
    park? kind s regs = none ∧ (kind = .loop ∨ ¬ kind.Accepts s) ∨
      (kind = .except ∨ kind = .finally) ∧ kind.Accepts s ∧
        ∃ p, park? kind s regs = some p ∧ p.pending.signal = some s ∧
          p.pending.fill {} = regs ∧ p.registers = {} := by
  obtain ⟨raised, result⟩ := regs
  cases kind with
  | loop => exact .inl ⟨by cases s <;> rfl, .inl rfl⟩
  | cleanup pending => exact .inl ⟨by cases s <;> rfl, .inr id⟩
  | except =>
      cases s with
      | raising =>
          obtain ⟨⟨r, rfl⟩, rfl⟩ := hs
          exact .inr ⟨.inl rfl, rfl, _, rfl, rfl, rfl, rfl⟩
      | _ => exact .inl ⟨rfl, .inr nofun⟩
  | «finally» =>
      cases s with
      | returning =>
          obtain ⟨rfl, v, rfl⟩ := hs
          exact .inr ⟨.inr rfl, trivial, _, rfl, rfl, rfl, rfl⟩
      | raising =>
          obtain ⟨⟨r, rfl⟩, rfl⟩ := hs
          exact .inr ⟨.inr rfl, trivial, _, rfl, rfl, rfl, rfl⟩
      | breaking =>
          obtain ⟨rfl, rfl⟩ := hs
          exact .inr ⟨.inr rfl, trivial, _, rfl, rfl, rfl, rfl⟩
      | continuing target =>
          obtain ⟨rfl, rfl⟩ := hs
          exact .inr ⟨.inr rfl, trivial, _, rfl, rfl, rfl, rfl⟩

/-- A block that is not a loop parks the signal, or leaves it to the blocks below. -/
lemma offer_of_ne_loop {b : Block} (hb : b.kind ≠ .loop) (below : List Block)
    (stack : List Value) (next : List Value → Unwinding) :
    b.offer below s stack regs next =
      match park? b.kind s regs with
      | some p =>
        { stack := p.instance?.toList ++ Frame.cut stack b.level
          blocks := ⟨.cleanup p.pending, b.handler, (Frame.cut stack b.level).length⟩ :: below
          target := some b.handler
          registers := p.registers
          unwound := .consumed b.kind b.handler }
      | none => next (Frame.cut stack b.level) := by
  obtain ⟨kind, handler, level⟩ := b
  cases kind with
  | loop => exact absurd rfl hb
  | _ => rfl

/-- A block takes the signals it accepts, and leaves the others to the blocks below. -/
lemma offer_cases (hs : s.Carried regs) (b : Block) (below : List Block) (stack : List Value)
    (next : List Value → Unwinding) :
    ¬ b.kind.Accepts s ∧ b.offer below s stack regs next = next (Frame.cut stack b.level) ∨
      b.kind.Accepts s ∧ Takes b below regs s (b.offer below s stack regs next) := by
  by_cases hloop : b.kind = .loop
  · obtain ⟨kind, handler, level⟩ := b
    obtain rfl : kind = .loop := hloop
    cases s with
    | returning => exact .inl ⟨fun h => h.1 rfl, rfl⟩
    | raising => exact .inl ⟨fun h => h.2 rfl, rfl⟩
    | breaking =>
        obtain rfl := Registers.eq_empty hs
        exact .inr ⟨⟨nofun, nofun⟩, .exits rfl⟩
    | continuing target =>
        obtain rfl := Registers.eq_empty hs
        exact .inr ⟨⟨nofun, nofun⟩, .repeats rfl⟩
  · rw [offer_of_ne_loop hloop]
    rcases park?_cases b.kind hs with ⟨hp, hkind⟩ | ⟨hkind, hb, p, hp, hsignal, hfill, hregs⟩
    · rw [hp]
      exact .inl ⟨hkind.resolve_left hloop, rfl⟩
    · rw [hp]
      simp only [hregs]
      exact .inr ⟨hb, .handles hkind hsignal hfill⟩

/-- **The innermost block that accepts a signal** takes it, or no block does. -/
theorem unwind_cases (hs : s.Carried regs) (blocks : List Block) (stack : List Value) :
    (∀ b ∈ blocks, ¬ b.kind.Accepts s) ∧ (unwind s regs blocks stack).unwound = .escaped ∧
        (unwind s regs blocks stack).blocks = [] ∧
        (unwind s regs blocks stack).registers = regs ∨
      ∃ above b below, blocks = above ++ b :: below ∧ (∀ a ∈ above, ¬ a.kind.Accepts s) ∧
        b.kind.Accepts s ∧ Takes b below regs s (unwind s regs blocks stack) := by
  induction blocks generalizing stack with
  | nil => exact .inl ⟨nofun, rfl, rfl, rfl⟩
  | cons b below ih =>
      rw [unwind]
      rcases offer_cases hs b below stack (unwind s regs below) with ⟨hb, ho⟩ | ⟨hb, ho⟩
      · rw [ho]
        rcases ih (Frame.cut stack b.level) with ⟨hall, hout⟩ | ⟨above, c, rest, rfl, habove, hc⟩
        · exact .inl ⟨List.forall_mem_cons.mpr ⟨hb, hall⟩, hout⟩
        · exact .inr ⟨b :: above, c, rest, rfl, List.forall_mem_cons.mpr ⟨hb, habove⟩, hc⟩
      · exact .inr ⟨[], b, below, rfl, nofun, hb, ho⟩

/-- The operand stack that is left when blocks have been left, innermost first. -/
def cutAll (stack : List Value) (blocks : List Block) : List Value :=
  blocks.foldl (fun stack b => Frame.cut stack b.level) stack

/-- A block leaves the signals that it does not accept to the blocks below. -/
lemma offer_of_not_accepts {b : Block} (hb : ¬ b.kind.Accepts s) (below : List Block)
    (stack : List Value) (next : List Value → Unwinding) :
    b.offer below s stack regs next = next (Frame.cut stack b.level) := by
  obtain ⟨kind, handler, level⟩ := b
  cases kind with
  | loop =>
      cases s with
      | returning => rfl
      | raising => rfl
      | breaking => exact absurd ⟨nofun, nofun⟩ hb
      | continuing target => exact absurd ⟨nofun, nofun⟩ hb
  | except =>
      cases s with
      | raising => exact absurd rfl hb
      | _ => rfl
  | «finally» => exact absurd trivial hb
  | cleanup pending => cases s <;> rfl

/-- Blocks that do not accept a signal only cut the operand stack. -/
lemma unwind_append (regs : Registers) {above : List Block}
    (habove : ∀ a ∈ above, ¬ a.kind.Accepts s) (rest : List Block) (stack : List Value) :
    unwind s regs (above ++ rest) stack = unwind s regs rest (cutAll stack above) := by
  induction above generalizing stack with
  | nil => rfl
  | cons a above ih =>
      obtain ⟨ha, habove⟩ := List.forall_mem_cons.mp habove
      rw [List.cons_append, unwind, offer_of_not_accepts ha, ih habove]
      rfl

end Block

end StackVM
