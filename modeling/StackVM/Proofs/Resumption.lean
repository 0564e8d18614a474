/-
A finally block is transparent to the signal that it interrupts. The signal waits, with its
payload, in the block of the handler; at the end of the handler unwinding goes on as if the
finally block had not been there. While an exception waits so, or for the end of an except
handler, it can be raised anew as it is.

* `Machine.UnwindsLike`: what unwinding a signal on a machine comes to;
* `Exec.execute_endFinally`: the signal that waited is under way again;
* `Exec.execute_reraise`: the exception that is being handled is under way again;
* `finally_is_transparent`: what follows for the frame.
-/
import StackVM.Proofs.Registers
import StackVM.Proofs.UnwindingForm

namespace StackVM

/-! ### Unwinding -/

/-- A signal that is taken leads somewhere. -/
lemma Block.target_isSome {s : Signal} {regs : Registers} {blocks : List Block}
    {stack : List Value} (htaken : (unwind s regs blocks stack).unwound ≠ .escaped) :
    (unwind s regs blocks stack).target.isSome = true := by
  induction blocks generalizing stack with
  | nil => exact absurd rfl htaken
  | cons b below ih =>
      rw [unwind] at htaken ⊢
      by_cases hloop : b.kind = .loop
      · obtain ⟨kind, handler, level⟩ := b
        obtain rfl : kind = .loop := hloop
        cases s with
        | returning => exact ih htaken
        | raising => exact ih htaken
        | breaking => rfl
        | continuing target => rfl
      · rw [offer_of_ne_loop hloop] at htaken ⊢
        cases hpark : park? b.kind s regs with
        | none =>
            rw [hpark] at htaken
            exact ih htaken
        | some q => rfl

/-- Unwinding a signal on the machine, which has the frames `older` below the current one,
comes to `u`: the signal comes back if it has escaped, the registers, the blocks and the operand
stack are those of `u`, and if the signal was taken, control goes on at the same place. -/
structure Machine.UnwindsLike (m : Machine) (s : Signal) (older : List Frame)
    (u : Frame × Registers × Unwound) : Prop where
  escaped : u.2.2 = .escaped → (m.unwind s).2 = some s
  taken : u.2.2 ≠ .escaped → (m.unwind s).2 = none
  registers : (m.unwind s).1.registers = u.2.1
  frames : ∃ f, (m.unwind s).1.frames = f :: older ∧ f.blocks = u.1.blocks ∧
    f.stack = u.1.stack ∧ (u.2.2 ≠ .escaped → f.ip = u.1.ip)

/-- Unwinding depends on the blocks, the operand stack and the registers only. -/
lemma Machine.unwindsLike {m : Machine} {f g : Frame} {older : List Frame}
    (hframes : m.frames = g :: older) (hblocks : g.blocks = f.blocks) (hstack : g.stack = f.stack)
    (s : Signal) : m.UnwindsLike s older (f.unwind s m.registers) := by
  have hsame : Block.unwind s m.registers g.blocks g.stack =
      Block.unwind s m.registers f.blocks f.stack := by rw [hblocks, hstack]
  have hunwound : (g.unwind s m.registers).2.2 = (f.unwind s m.registers).2.2 :=
    congrArg Unwinding.unwound hsame
  have hip (htaken : (f.unwind s m.registers).2.2 ≠ .escaped) :
      (g.unwind s m.registers).1.ip = (f.unwind s m.registers).1.ip := by
    obtain ⟨target, htarget⟩ := Option.isSome_iff_exists.mp (Block.target_isSome htaken)
    simp only [Frame.unwind, hsame, htarget, Option.getD_some]
  obtain ⟨m', hframes', hregs', hresult⟩ := Machine.unwind_cases hframes s
  have hm' : (m.unwind s).1 = m' := by
    rcases hresult with ⟨-, hm'⟩ | ⟨-, hm'⟩ <;> rw [hm']
  rw [hunwound] at hresult
  refine ⟨fun hescaped => ?_, fun htaken => ?_, ?_, ?_⟩
  · rcases hresult with ⟨-, hm'⟩ | ⟨htaken, -⟩
    · rw [hm']
    · exact absurd hescaped htaken
  · rcases hresult with ⟨hescaped, -⟩ | ⟨-, hm'⟩
    · exact absurd hescaped htaken
    · rw [hm']
  · rw [hm', hregs']
    exact congrArg Unwinding.registers hsame
  · rw [hm', hframes']
    exact ⟨_, rfl, congrArg Unwinding.blocks hsame, congrArg Unwinding.stack hsame, hip⟩

/-- The exception of the innermost handler that runs for one. -/
lemma Frame.handled?_of_split {f : Frame} {inner rest : List Block} {r : Raised}
    {handler level : Nat}
    (hblocks : f.blocks = inner ++ ⟨.cleanup (.raising r), handler, level⟩ :: rest)
    (hinner : ∀ b ∈ inner, ∀ r', b.kind ≠ .cleanup (.raising r')) : f.handled? = some r := by
  rw [handled?, hblocks, List.findSome?_append, List.findSome?_eq_none_iff.mpr]
  · rfl
  · intro b hb
    split
    next r' hkind => exact absurd hkind (hinner b hb r')
    next => rfl

/-! ### Instructions -/

namespace Exec

variable {code : CodeObject} {i : Instruction} {m : Machine} {g : Frame} {older : List Frame}

/-- At the end of a handler the signal that waited is under way again, with its payload. -/
lemma execute_endFinally {p : Pending} {handler level : Nat} {below : List Block}
    (hop : i.opcode = some .endFinally) (hframes : m.frames = g :: older)
    (hblocks : g.blocks = ⟨.cleanup p, handler, level⟩ :: below) :
    ∃ m', execute code i m = .ok p.signal m' ∧ m'.registers = p.fill m.registers ∧
      m'.frames = { g with blocks := below, stack := Frame.cut g.stack level } :: older := by
  have hpop := popCleanup_run hframes "END_FINALLY"
  have hframes' := Machine.frames_withTop hframes
    { g with blocks := below, stack := Frame.cut g.stack level }
  rw [hblocks] at hpop
  simp only [execute, hop, executeOp]
  rw [endFinally, bind_of_ok hpop]
  cases p with
  | none => exact ⟨_, rfl, rfl, hframes'⟩
  | returning v => exact ⟨_, rfl, rfl, hframes'⟩
  | raising r => exact ⟨_, rfl, rfl, hframes'⟩
  | breaking => exact ⟨_, rfl, rfl, hframes'⟩
  | continuing target => exact ⟨_, rfl, rfl, hframes'⟩

/-- The exception that is being handled is under way again, and nothing else has changed. -/
lemma execute_reraise {r : Raised} (hop : i.opcode = some .raiseVarargs) (harg : i.arg = 0)
    (hframes : m.frames = g :: older) (hr : g.handled? = some r) :
    execute code i m =
      .ok (some .raising) { m with registers := { m.registers with raised := some r } } := by
  have hfind : m.frames.findSome? Frame.handled? = some r := by
    rw [hframes, List.findSome?_cons, hr]
  simp only [execute, hop, executeOp, harg]
  rw [raiseVarargs, bind_of_ok (get_run m), hfind]
  rfl

end Exec

/-! ### Runs -/

/-- A signal whose payload is all that the registers hold can wait, and leaves them empty. -/
lemma Signal.Carried.waiting? {s : Signal} {regs : Registers} (hs : s.Carried regs) :
    ∃ p, s.waiting? regs = some p ∧ s.drain regs = {} := by
  obtain ⟨raised, result⟩ := regs
  cases s with
  | returning =>
      obtain ⟨rfl, v, rfl⟩ := hs
      exact ⟨.returning v, rfl, rfl⟩
  | raising =>
      obtain ⟨⟨r, rfl⟩, rfl⟩ := hs
      exact ⟨.raising r, rfl, rfl⟩
  | breaking => exact ⟨.breaking, rfl, Registers.eq_empty hs⟩
  | continuing target => exact ⟨.continuing target, rfl, Registers.eq_empty hs⟩

/-- **A finally block is transparent** to the signal it interrupts. Let the innermost block of a
frame `f` that accepts a signal be a finally block. The signal waits in a cleanup block in its
place. If the handler ends while this block is on top, with the same blocks below it and the
same values below its level, then unwinding comes to what it would have come to without the
finally block, from the blocks below it and the operand stack at that level: the signal is
taken in the same way or escapes, with the same payload. In a run the registers are always as
this asks: an offered signal has its payload there, and they are empty before an instruction.

Likewise let the innermost block that accepts an exception be an except or a finally block. As
long as no handler inside of the one that then runs has to do with an exception, raising
without operands raises the very exception, with its traceback. -/
theorem finally_is_transparent :
    (∀ (f : Frame) (s : Signal) (regs : Registers) (p : Pending) (above below : List Block)
        (b : Block),
      s.waiting? regs = some p → f.blocks = above ++ b :: below →
      (∀ a ∈ above, ¬ a.kind.Accepts s) → b.kind = .finally →
      ∃ level,
        f.unwind s regs =
          ({ f with
              blocks := ⟨.cleanup p, b.handler, level⟩ :: below
              stack := Frame.cut f.stack level
              ip := b.handler }, s.drain regs, .consumed .finally b.handler) ∧
        ∀ (code : CodeObject) (i : Instruction) (m : Machine) (g : Frame) (older : List Frame),
          i.opcode = some .endFinally → m.frames = g :: older → m.registers = s.drain regs →
          g.blocks = ⟨.cleanup p, b.handler, level⟩ :: below →
          Frame.cut g.stack level = Frame.cut f.stack level →
          ∃ m', Exec.execute code i m = .ok (some s) m' ∧ m'.registers = regs ∧
            m'.UnwindsLike s older
              (Frame.unwind { f with blocks := below, stack := Frame.cut f.stack level } s regs)) ∧
    (∀ (l : Loop) (s : Signal), Moment.Reachable (.offering l s) →
      ∃ p, s.waiting? l.machine.registers = some p ∧ s.drain l.machine.registers = {}) ∧
    (∀ (l : Loop) (i : Instruction), Moment.Reachable (.stepping l) →
      (l.fetched i).registers = {}) ∧
    ∀ (f : Frame) (regs : Registers) (r : Raised) (above below : List Block) (b : Block),
      regs.raised = some r → f.blocks = above ++ b :: below →
      (∀ a ∈ above, ¬ a.kind.Accepts .raising) → b.kind = .except ∨ b.kind = .finally →
      ∃ level,
        (f.unwind .raising regs).1.blocks =
          ⟨.cleanup (.raising r), b.handler, level⟩ :: below ∧
        ∀ (code : CodeObject) (i : Instruction) (m : Machine) (g : Frame) (older : List Frame)
            (inner rest : List Block),
          i.opcode = some .raiseVarargs → i.arg = 0 → m.frames = g :: older →
          g.blocks = inner ++ ⟨.cleanup (.raising r), b.handler, level⟩ :: rest →
          (∀ a ∈ inner, ∀ r', a.kind ≠ .cleanup (.raising r')) →
          Exec.execute code i m =
            .ok (some .raising)
              { m with registers := { m.registers with raised := some r } } := by
  refine ⟨?_, fun l s hoffering => hoffering.fit.waiting?, fun l i hstepping => hstepping.fit, ?_⟩
  · intro f s regs p above below b hp hblocks habove hb
    refine ⟨_, hb ▸ Frame.unwind_finally hp hblocks habove hb, ?_⟩
    intro code i m g older hop hframes hregs hgblocks hgstack
    obtain ⟨m', hexec, hregs', hframes'⟩ := Exec.execute_endFinally hop hframes hgblocks
    obtain ⟨hsignal, hfill⟩ := Signal.waiting?_eq_some hp
    rw [hsignal] at hexec
    rw [hregs, hfill] at hregs'
    refine ⟨m', hexec, hregs', ?_⟩
    have hlike := Machine.unwindsLike
      (f := { f with blocks := below, stack := Frame.cut f.stack _ }) hframes' rfl hgstack s
    rwa [hregs'] at hlike
  · intro f regs r above below b hr hblocks habove hb
    refine ⟨Block.floor f.stack.length (above ++ [b]), ?_, ?_⟩
    · rcases hb with hb | hb
      · rw [Frame.unwind_except hr hblocks habove hb]
      · rw [Frame.unwind_finally (Signal.waiting?_raising hr) hblocks habove hb]
    · intro code i m g older inner rest hop harg hframes hgblocks hinner
      exact Exec.execute_reraise hop harg hframes (Frame.handled?_of_split hgblocks hinner)

/-- An exception that has left a call waits in a finally handler, which has put other values on
the operand stack. At the end of the handler it goes on to the except block around, and it can be
raised anew before that. And in a run of `return None` the value is there when it is offered. -/
theorem exception_passes_finally_handler :
    let r : Raised := { exc := default, origin := ⟨"callee", 3⟩, callers := [⟨"f", 9⟩] }
    let f : Frame :=
      { code := default, locals := ⟨0⟩, globals := ⟨0⟩, builtins := ⟨0⟩, cells := []
        stack := [.int 2, .int 1, .none]
        blocks := [⟨.loop, 30, 1⟩, ⟨.finally, 20, 2⟩, ⟨.except, 10, 0⟩] }
    let g : Frame :=
      { f with
          stack := [.bool true, .int 5, .none]
          blocks := [⟨.cleanup (.raising r), 20, 1⟩, ⟨.except, 10, 0⟩]
          ip := 24 }
    let m : Machine := { builtins := ⟨0⟩, calls := CallStack.empty.push g }
    let ending : Instruction :=
      { offset := 23, next := 24, byte := 88, opcode := some .endFinally, operand := .none
        arg := 0 }
    let raising : Instruction :=
      { offset := 21, next := 24, byte := 130, opcode := some .raiseVarargs, operand := .int 0
        arg := 0 }
    let x := Moment.ofTurn (Machine.start { builtins := ⟨0⟩ }
      ⟨default, { Code.empty "f" with bytecode := #[100, 0, 0, 83], consts := #[.none] }⟩ none none)
    m.frames = [g] ∧
      f.unwind .raising { raised := some r } =
        ({ f with
            blocks := [⟨.cleanup (.raising r), 20, 1⟩, ⟨.except, 10, 0⟩]
            stack := [.none]
            ip := 20 }, {}, .consumed .finally 20) ∧
      (∃ m', Exec.execute default ending m = .ok (some .raising) m' ∧
        m'.UnwindsLike .raising []
          (Frame.unwind { f with blocks := [⟨.except, 10, 0⟩], stack := [.none] } .raising
            { raised := some r })) ∧
      Exec.execute default raising m =
        .ok (some .raising) { m with registers := { raised := some r } } ∧
      ∃ l l', Moment.next^[2] x = .offering l .returning ∧ x = .stepping l' ∧
        (∃ p, Signal.returning.waiting? l.machine.registers = some p ∧
          Signal.returning.drain l.machine.registers = {}) ∧
        (l'.fetched ending).registers = {} := by
  intro r f g m ending raising x
  have habove : ∀ a ∈ [(⟨.loop, 30, 1⟩ : Block)], ¬ a.kind.Accepts .raising := by
    simp [BlockKind.Accepts]
  have reach (n : Nat) : Moment.Reachable (Moment.next^[n] x) :=
    Moment.reachable_iterate (.start _ _ none none) n
  obtain ⟨l, hl⟩ : ∃ l, Moment.next^[2] x = .offering l .returning := ⟨_, by cbv⟩
  obtain ⟨l', hl'⟩ : ∃ l', x = .stepping l' := ⟨_, by cbv⟩
  obtain ⟨transparent, offered, stepped, reraised⟩ := finally_is_transparent
  obtain ⟨level, hunwind, resumed⟩ := transparent f .raising { raised := some r } (.raising r)
    [⟨.loop, 30, 1⟩] [⟨.except, 10, 0⟩] ⟨.finally, 20, 2⟩ rfl rfl habove rfl
  have hlevel : some 1 = some level :=
    congrArg (fun u => u.1.blocks.head?.map Block.level) hunwind
  obtain rfl := Option.some.inj hlevel
  obtain ⟨m', hexec, -, hlike⟩ := resumed default ending m g [] rfl rfl rfl rfl rfl
  obtain ⟨level', hblocks, raise⟩ := reraised f { raised := some r } r [⟨.loop, 30, 1⟩]
    [⟨.except, 10, 0⟩] ⟨.finally, 20, 2⟩ rfl rfl habove (.inr rfl)
  have hlevel' : some 1 = some level' := congrArg (fun bs => bs.head?.map Block.level) hblocks
  obtain rfl := Option.some.inj hlevel'
  exact ⟨rfl, hunwind, ⟨m', hexec, hlike⟩,
    raise default raising m g [] [] [⟨.except, 10, 0⟩] rfl rfl rfl rfl (by simp),
    l, l', hl, hl', offered l .returning (hl ▸ reach 2), stepped l' ending (hl' ▸ reach 0)⟩

end StackVM
