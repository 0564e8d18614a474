/-
Unwinding in closed form. The blocks of a frame may be of any kinds and have any levels: the
innermost one that accepts the signal decides what happens, and those above it only lower
the operand stack.

* `Signal.waiting?`, `Signal.drain`: a signal with its payload, and the registers without it;
* `Block.floor`: the lowest of a height and the levels of blocks;
* `Block.cutAll_eq_cut`: leaving blocks cuts the operand stack to that height;
* `unwinding_has_closed_form`: what becomes of a frame and of the registers.
-/
import Mathlib
import StackVM.Proofs.Unwinding

namespace StackVM

/-! ### Signals and their payload -/

namespace Signal

variable {s : Signal} {regs : Registers} {p : Pending}

/-- A signal as it waits for the end of a handler. Its payload is in the registers; there is
nothing to wait if the register for it is empty. -/
def waiting? (regs : Registers) : Signal → Option Pending
  | .returning => regs.result.map .returning
  | .raising => regs.raised.map .raising
  | .breaking => some .breaking
  | .continuing target => some (.continuing target)

/-- The registers without the payload of a signal. -/
def drain (regs : Registers) : Signal → Registers
  | .returning => { regs with result := none }
  | .raising => { regs with raised := none }
  | .breaking => regs
  | .continuing _ => regs

/-- An exception waits with its traceback. -/
lemma waiting?_raising {r : Raised} (hr : regs.raised = some r) :
    Signal.raising.waiting? regs = some (.raising r) := by
  rw [waiting?, hr]
  rfl

/-- What waits is the signal, and fills the register that its payload was taken from. -/
lemma waiting?_eq_some (hp : s.waiting? regs = some p) :
    p.signal = some s ∧ p.fill (s.drain regs) = regs := by
  obtain ⟨raised, result⟩ := regs
  cases s with
  | returning =>
      obtain ⟨v, rfl, rfl⟩ := Option.map_eq_some_iff.mp hp
      exact ⟨rfl, rfl⟩
  | raising =>
      obtain ⟨r, rfl, rfl⟩ := Option.map_eq_some_iff.mp hp
      exact ⟨rfl, rfl⟩
  | breaking =>
      cases hp
      exact ⟨rfl, rfl⟩
  | continuing target =>
      cases hp
      exact ⟨rfl, rfl⟩

end Signal

/-! ### The operand stack -/

namespace Frame

@[simp] lemma length_cut (stack : List Value) (level : Nat) :
    (cut stack level).length = min stack.length level := by
  rw [cut, List.length_drop]
  omega

@[simp] lemma cut_length (stack : List Value) : cut stack stack.length = stack := by
  rw [cut, Nat.sub_self, List.drop_zero]

/-- Of two cuts in a row the lower one counts. -/
lemma cut_cut (stack : List Value) (m n : Nat) : cut (cut stack m) n = cut stack (min m n) := by
  rw [cut, length_cut, cut, List.drop_drop, cut]
  congr 1
  omega

end Frame

namespace Block

variable {s : Signal} {regs : Registers} {p : Pending}

/-- The lowest of a height and the levels of blocks. -/
def floor (height : Nat) (blocks : List Block) : Nat :=
  blocks.foldl (fun n b => min n b.level) height

lemma floor_append (height : Nat) (above : List Block) (b : Block) :
    floor height (above ++ [b]) = min (floor height above) b.level :=
  List.foldl_append

lemma floor_le (height : Nat) (blocks : List Block) : floor height blocks ≤ height := by
  induction blocks generalizing height with
  | nil => exact le_rfl
  | cons b blocks ih => exact (ih (min height b.level)).trans (min_le_left ..)

/-- **Leaving blocks** cuts the operand stack to the lowest of their levels. -/
lemma cutAll_eq_cut (stack : List Value) (blocks : List Block) :
    cutAll stack blocks = Frame.cut stack (floor stack.length blocks) := by
  induction blocks generalizing stack with
  | nil => exact (Frame.cut_length stack).symm
  | cons b blocks ih =>
      have hle : floor (min stack.length b.level) blocks ≤ b.level :=
        (floor_le ..).trans (min_le_right ..)
      calc cutAll stack (b :: blocks)
          = cutAll (Frame.cut stack b.level) blocks := rfl
        _ = Frame.cut (Frame.cut stack b.level) (floor (min stack.length b.level) blocks) := by
            rw [ih, Frame.length_cut]
        _ = Frame.cut stack (floor (min stack.length b.level) blocks) := by
            rw [Frame.cut_cut, min_eq_right hle]

/-! ### Blocks -/

/-- A finally block has every signal wait. -/
lemma park?_finally (hp : s.waiting? regs = some p) :
    park? .finally s regs = some ⟨p, s.drain regs, none⟩ := by
  cases s with
  | returning =>
      obtain ⟨v, hv, rfl⟩ := Option.map_eq_some_iff.mp hp
      rw [park?, hv]
      rfl
  | raising =>
      obtain ⟨r, hr, rfl⟩ := Option.map_eq_some_iff.mp hp
      rw [park?, hr]
      rfl
  | breaking =>
      cases hp
      rfl
  | continuing target =>
      cases hp
      rfl

/-- An except block has an exception wait, and gives its instance to the handler. -/
lemma park?_except {r : Raised} (hr : regs.raised = some r) :
    park? .except .raising regs =
      some ⟨.raising r, Signal.raising.drain regs, some (.exception r.exc)⟩ := by
  rw [park?, hr]
  rfl

/-- The signal reaches the innermost block that accepts it with the stack that those above
have left. -/
lemma unwind_of_split {above below : List Block} {b : Block}
    (habove : ∀ a ∈ above, ¬ a.kind.Accepts s) (stack : List Value) :
    unwind s regs (above ++ b :: below) stack =
      b.offer below s (Frame.cut stack (floor stack.length above)) regs (unwind s regs below) := by
  rw [unwind_append regs habove, unwind, cutAll_eq_cut]

/-- No block is left of those that do not accept the signal. -/
lemma unwind_of_none {blocks : List Block} (hnone : ∀ b ∈ blocks, ¬ b.kind.Accepts s)
    (stack : List Value) :
    unwind s regs blocks stack =
      { stack := Frame.cut stack (floor stack.length blocks), blocks := [], target := none
        registers := regs, unwound := .escaped } := by
  have happend := unwind_append regs hnone [] stack
  rwa [List.append_nil, unwind, cutAll_eq_cut] at happend

end Block

namespace Frame

variable {f : Frame} {s : Signal} {regs : Registers} {p : Pending} {above below : List Block}
  {b : Block}

/-- A loop that goes on stays where it is. -/
lemma unwind_loop_continuing {target : Nat} (hblocks : f.blocks = above ++ b :: below)
    (habove : ∀ a ∈ above, ¬ a.kind.Accepts (.continuing target)) (hb : b.kind = .loop) :
    f.unwind (.continuing target) regs =
      ({ f with
          blocks := b :: below
          stack := cut f.stack (Block.floor f.stack.length above)
          ip := target }, regs, .continued) := by
  rw [Frame.unwind, hblocks, Block.unwind_of_split habove]
  simp only [Block.offer, hb, Option.getD_some]

/-- A loop that is left is gone. -/
lemma unwind_loop_breaking (hblocks : f.blocks = above ++ b :: below)
    (habove : ∀ a ∈ above, ¬ a.kind.Accepts .breaking) (hb : b.kind = .loop) :
    f.unwind .breaking regs =
      ({ f with
          blocks := below
          stack := cut f.stack (Block.floor f.stack.length (above ++ [b]))
          ip := b.handler }, regs, .consumed b.kind b.handler) := by
  rw [Frame.unwind, hblocks, Block.unwind_of_split habove]
  simp only [Block.offer, hb, Option.getD_some, Frame.cut_cut, Block.floor_append]

/-- A block that parks the signal is replaced by the block of its handler. -/
lemma unwind_of_park {q : Parked} (hblocks : f.blocks = above ++ b :: below)
    (habove : ∀ a ∈ above, ¬ a.kind.Accepts s) (hb : b.kind ≠ .loop)
    (hq : Block.park? b.kind s regs = some q) :
    f.unwind s regs =
      ({ f with
          blocks :=
            ⟨.cleanup q.pending, b.handler, Block.floor f.stack.length (above ++ [b])⟩ :: below
          stack := q.instance?.toList ++ cut f.stack (Block.floor f.stack.length (above ++ [b]))
          ip := b.handler }, q.registers, .consumed b.kind b.handler) := by
  have hfloor := Block.floor_le f.stack.length (above ++ [b])
  rw [Frame.unwind, hblocks, Block.unwind_of_split habove, Block.offer_of_ne_loop hb, hq]
  simp only [Option.getD_some, Frame.cut_cut, ← Block.floor_append, Frame.length_cut,
    min_eq_right hfloor]

/-- An except block has an exception wait, with its instance on the stack. -/
lemma unwind_except {r : Raised} (hr : regs.raised = some r)
    (hblocks : f.blocks = above ++ b :: below)
    (habove : ∀ a ∈ above, ¬ a.kind.Accepts .raising) (hb : b.kind = .except) :
    f.unwind .raising regs =
      ({ f with
          blocks := ⟨.cleanup (.raising r), b.handler,
            Block.floor f.stack.length (above ++ [b])⟩ :: below
          stack := .exception r.exc :: cut f.stack (Block.floor f.stack.length (above ++ [b]))
          ip := b.handler }, Signal.raising.drain regs, .consumed b.kind b.handler) :=
  unwind_of_park hblocks habove (by simp [hb]) (hb ▸ Block.park?_except hr)

/-- A finally block has every signal wait. -/
lemma unwind_finally (hp : s.waiting? regs = some p) (hblocks : f.blocks = above ++ b :: below)
    (habove : ∀ a ∈ above, ¬ a.kind.Accepts s) (hb : b.kind = .finally) :
    f.unwind s regs =
      ({ f with
          blocks :=
            ⟨.cleanup p, b.handler, Block.floor f.stack.length (above ++ [b])⟩ :: below
          stack := cut f.stack (Block.floor f.stack.length (above ++ [b]))
          ip := b.handler }, s.drain regs, .consumed b.kind b.handler) :=
  unwind_of_park hblocks habove (by simp [hb]) (hb ▸ Block.park?_finally hp)

end Frame

/-- **Unwinding in closed form**, for a signal `s` whose payload is in the registers; `p` is
the signal with its payload. If no block accepts the signal, it escapes with its payload, no
block is left, and the operand stack is cut to the lowest of its height and all levels.
Otherwise let `b` be the innermost block that accepts it. The blocks below `b` stay, those
above are gone, and their levels and that of `b` cut the operand stack. A loop that goes on
stays, and its own level does not count; a loop that is left is gone. For an except or a finally
block a cleanup block takes its place, in which the signal waits with its payload, whose
register is then empty; an except block pushes the exception. Nothing else changes. -/
theorem unwinding_has_closed_form (f : Frame) (s : Signal) (regs : Registers) (p : Pending)
    (hp : s.waiting? regs = some p) :
    ((∀ b ∈ f.blocks, ¬ b.kind.Accepts s) →
      f.unwind s regs =
        ({ f with
            blocks := []
            stack := Frame.cut f.stack (Block.floor f.stack.length f.blocks) },
          regs, .escaped)) ∧
    ∀ above b below, f.blocks = above ++ b :: below → (∀ a ∈ above, ¬ a.kind.Accepts s) →
      b.kind.Accepts s →
      (b.kind = .loop → ∀ target, p = .continuing target →
        f.unwind s regs =
          ({ f with
              blocks := b :: below
              stack := Frame.cut f.stack (Block.floor f.stack.length above)
              ip := target }, regs, .continued)) ∧
      (b.kind = .loop → p = .breaking →
        f.unwind s regs =
          ({ f with
              blocks := below
              stack := Frame.cut f.stack (Block.floor f.stack.length (above ++ [b]))
              ip := b.handler }, regs, .consumed b.kind b.handler)) ∧
      (b.kind = .except → ∃ r, p = .raising r ∧
        f.unwind s regs =
          ({ f with
              blocks :=
                ⟨.cleanup p, b.handler, Block.floor f.stack.length (above ++ [b])⟩ :: below
              stack := .exception r.exc ::
                Frame.cut f.stack (Block.floor f.stack.length (above ++ [b]))
              ip := b.handler }, s.drain regs, .consumed b.kind b.handler)) ∧
      (b.kind = .finally →
        f.unwind s regs =
          ({ f with
              blocks :=
                ⟨.cleanup p, b.handler, Block.floor f.stack.length (above ++ [b])⟩ :: below
              stack := Frame.cut f.stack (Block.floor f.stack.length (above ++ [b]))
              ip := b.handler }, s.drain regs, .consumed b.kind b.handler)) := by
  obtain ⟨hsignal, -⟩ := Signal.waiting?_eq_some hp
  refine ⟨fun hnone => ?_, fun above b below hblocks habove haccepts => ⟨?_, ?_, ?_, ?_⟩⟩
  · rw [Frame.unwind, Block.unwind_of_none hnone]
    rfl
  · rintro hb target rfl
    cases hsignal
    exact Frame.unwind_loop_continuing hblocks habove hb
  · rintro hb rfl
    cases hsignal
    exact Frame.unwind_loop_breaking hblocks habove hb
  · intro hb
    rw [hb] at haccepts
    obtain rfl : s = .raising := haccepts
    obtain ⟨r, hr, rfl⟩ := Option.map_eq_some_iff.mp hp
    exact ⟨r, rfl, Frame.unwind_except hr hblocks habove hb⟩
  · exact Frame.unwind_finally hp hblocks habove

/-- A value is returned through a loop whose level is lower than that of the finally block
around it: the handler starts at the level of the loop. An exception is under way as well, and
stays where it is. Without the finally block the value escapes. -/
theorem return_through_lower_loop :
    let f : Frame :=
      { code := default, locals := ⟨0⟩, globals := ⟨0⟩, builtins := ⟨0⟩, cells := []
        stack := [.int 3, .int 2, .int 1, .none]
        blocks := [⟨.loop, 40, 1⟩, ⟨.cleanup .none, 30, 3⟩, ⟨.finally, 20, 2⟩, ⟨.loop, 10, 0⟩] }
    let g : Frame := { f with blocks := [⟨.loop, 40, 1⟩, ⟨.cleanup .none, 30, 3⟩] }
    let raised : Option Raised := some default
    let regs : Registers := { raised, result := some (.int 5) }
    Signal.returning.waiting? regs = some (.returning (.int 5)) ∧
      (∀ b ∈ g.blocks, ¬ b.kind.Accepts .returning) ∧
      f.unwind .returning regs =
        ({ f with
            blocks := [⟨.cleanup (.returning (.int 5)), 20, 1⟩, ⟨.loop, 10, 0⟩]
            stack := [.none]
            ip := 20 }, { raised }, .consumed .finally 20) ∧
      g.unwind .returning regs = ({ g with blocks := [], stack := [.none] }, regs, .escaped) := by
  intro f g raised regs
  have habove : ∀ b ∈ g.blocks, ¬ b.kind.Accepts .returning := by
    simp [g, BlockKind.Accepts]
  obtain ⟨-, taken⟩ := unwinding_has_closed_form f .returning regs (.returning (.int 5)) rfl
  obtain ⟨escaped, -⟩ := unwinding_has_closed_form g .returning regs (.returning (.int 5)) rfl
  obtain ⟨-, -, -, handled⟩ :=
    taken g.blocks ⟨.finally, 20, 2⟩ [⟨.loop, 10, 0⟩] rfl habove trivial
  exact ⟨rfl, habove, handled rfl, escaped habove⟩

end StackVM
