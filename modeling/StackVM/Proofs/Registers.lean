/-
The registers during a run. A signal and its payload live in different places; at every
moment the registers hold the payload of the signal under way, and nothing when there is
none.

* `Moment.Reachable.fit`: the registers fit the signal at every moment of a run;
* `Machine.Ending`: how a frame can end then;
* `registers_carry_signal`: what follows for runs.
-/
import Mathlib
import StackVM.Proofs.Transition

namespace StackVM

/-! ### Unwinding and the registers -/

/-- A signal that is taken leaves the registers empty, and one that is not leaves them as
they were. -/
lemma Frame.unwind_registers {s : Signal} {regs : Registers} (hs : s.Carried regs) (f : Frame) :
    ((f.unwind s regs).2.2 = .escaped → (f.unwind s regs).2.1 = regs) ∧
      ((f.unwind s regs).2.2 ≠ .escaped → (f.unwind s regs).2.1 = {}) := by
  rcases Block.unwind_cases hs f.blocks f.stack with
    ⟨-, hout, -, hregs⟩ | ⟨above, b, below, -, -, -, htakes⟩
  · exact ⟨fun _ => hregs, fun h => absurd hout h⟩
  · exact ⟨fun h => absurd h htakes.unwound_ne, fun _ => htakes.registers_eq⟩

/-- An instruction fills the registers with the payload of the signal it asks for. -/
lemma Effect.fit {i : Instruction} {f : Frame} {below : List Frame} {m m' : Machine}
    {s : Option Signal} (h : Effect i f below m m' s) (hm : m.registers = {}) :
    m'.registers.Fit s := by
  cases h with
  | moved _ _ registers => exact registers.trans hm
  | opened _ _ registers => exact registers.trans hm
  | closed _ _ _ registers => exact registers.trans hm
  | finishing _ _ _ _ registers => exact registers.trans hm
  | dropped _ _ registers => exact registers.trans hm
  | called _ _ _ _ _ registers => exact registers.trans hm
  | @resumed pending _ _ _ _ _ registers =>
      rw [registers, hm]
      exact pending.fit_fill
  | @returned v _ _ _ registers =>
      rw [registers, hm]
      exact ⟨rfl, v, rfl⟩
  | reraised _ _ registers => exact Signal.carried_raising registers hm
  | broken _ registers =>
      rw [registers, hm]
      exact ⟨rfl, rfl⟩
  | continued _ _ registers =>
      rw [registers, hm]
      exact ⟨rfl, rfl⟩

/-! ### The end of a frame -/

namespace Machine

/-- How the frame `f` ends with a signal whose payload is in the registers. -/
inductive Ending (m : Machine) (f : Frame) : Signal → Except Fault Value → Prop where
  | returned {v : Value} (result : m.registers.result = some v) : Ending m f .returning (.ok v)
  | raised {r : Raised} (raised : m.registers.raised = some r) :
      Ending m f .raising (.error (.propagated r))
  | breaking : Ending m f .breaking
      (.error (.propagated (Fault.raisedAt (.cause (.outsideLoop "break")) f.place m.heap).1))
  | continuing (target : Nat) : Ending m f (.continuing target)
      (.error (.propagated (Fault.raisedAt (.cause (.outsideLoop "continue")) f.place m.heap).1))

/-- A frame that ends gives the payload of its signal away. -/
lemma popFrame_ending {m m' : Machine} {f : Frame} {below : List Frame} {s : Signal}
    {result : Except Fault Value} (hf : m.frames = f :: below) (hs : s.Carried m.registers)
    (hpop : m.popFrame s = (m', result)) : m'.registers = {} ∧ Ending m f s result := by
  obtain ⟨rfl, rfl⟩ : m' = (m.popFrame s).1 ∧ result = (m.popFrame s).2 := by
    rw [hpop]
    exact ⟨rfl, rfl⟩
  clear hpop
  obtain ⟨c, hc, -⟩ := CallStack.pop?_of_cons hf
  rw [popFrame, hc]
  cases s with
  | returning =>
      obtain ⟨hraised, v, hresult⟩ := hs
      have hgetD : m.registers.result.getD .none = v := by rw [hresult, Option.getD_some]
      refine ⟨Registers.eq_empty ⟨hraised, rfl⟩, ?_⟩
      show Ending m f .returning (.ok (m.registers.result.getD .none))
      rw [hgetD]
      exact .returned hresult
  | raising =>
      obtain ⟨⟨r, hraised⟩, hresult⟩ := hs
      dsimp only [record]
      rw [hraised]
      exact ⟨Registers.eq_empty ⟨rfl, hresult⟩, .raised hraised⟩
  | breaking => exact ⟨Registers.eq_empty hs, .breaking⟩
  | continuing target => exact ⟨Registers.eq_empty hs, .continuing target⟩

end Machine

/-! ### Moments -/

namespace Moment

/-- The signal under way. -/
def signal? : Moment → Option Signal
  | .stepping _ => none
  | .offering _ s => some s
  | .leaving _ s => some s
  | .ended _ _ => none

lemma Transition.fit {x y : Moment} (h : Transition x y) (hx : x.registers.Fit x.signal?) :
    y.registers.Fit y.signal? := by
  cases h with
  | undecodable _ _ _ registers => exact Signal.carried_raising registers hx
  | failed _ _ _ registers => exact Signal.carried_raising registers hx
  | signalled _ _ effect _ => exact effect.fit hx
  | executed _ _ effect _ => exact effect.fit hx
  | taken _ unwound _ registers =>
      exact registers.trans ((Frame.unwind_registers hx _).2 unwound)
  | @escaped l m' f _ s _ unwound _ registers =>
      have hsame : m'.registers = l.machine.registers :=
        registers.trans ((Frame.unwind_registers hx f).1 unwound)
      show s.Carried m'.registers
      rw [hsame]
      exact hx
  | returned frames popped _ registers =>
      exact registers.trans (Machine.popFrame_ending frames hx popped).1
  | raised frames popped _ registers =>
      exact Signal.carried_raising registers (Machine.popFrame_ending frames hx popped).1
  | finished frames popped _ => exact (Machine.popFrame_ending frames hx popped).1
  | ended => exact hx

/-- At every moment of a run the registers fit the signal under way. -/
lemma Reachable.fit {x : Moment} (h : Reachable x) : x.registers.Fit x.signal? := by
  induction h with
  | start m code globals locals =>
      rcases start_cases m code globals locals with ⟨l, f, ht, -, hr, -⟩ | ⟨m', e, ht, -, hr⟩
      · rw [ht]
        exact hr
      · rw [ht]
        exact hr
  | next h ih => exact h.transition.fit ih

end Moment

/-- A run that comes to its end does so at a moment of it. -/
lemma Machine.runCode_ended {m m' : Machine} {fuel : Nat} {code : CodeObject}
    {globals locals : Option (Ref .namespace)} {r : Except Raised Value}
    (h : m.runCode fuel code globals locals = some (m', r)) :
    ∃ m₁ result, Moment.Reachable (.ended m₁ result) ∧ m₁.conclude code result = (m', r) := by
  rw [runCode] at h
  split at h
  next m₁ result hrun =>
    obtain ⟨n, hn⟩ := Moment.run_eq_some_iff.mp ⟨fuel, hrun⟩
    refine ⟨m₁, result, ?_, Option.some.inj h⟩
    rw [← hn]
    exact Moment.reachable_iterate (.start m code globals locals) n
  next => cases h

/-- The host is told the result; the frames and the registers stay as they are. -/
lemma Machine.conclude_fst (m : Machine) (code : CodeObject) (result : Except Fault Value) :
    (m.conclude code result).1.frames = m.frames ∧
      (m.conclude code result).1.registers = m.registers := by
  cases result with
  | ok v => exact ⟨rfl, rfl⟩
  | error e => cases e <;> exact ⟨rfl, rfl⟩

/-- **The registers carry the signal under way.** They are empty whenever an instruction is
to be executed; a signal that is offered to blocks, or ends a frame, has its payload in
them and nothing else is there. So a frame never ends with an exception that is missing, nor
with a value that is; and after a run there are no frames and the registers are empty. -/
theorem registers_carry_signal :
    (∀ l, Moment.Reachable (.stepping l) →
      l.machine.registers.raised = none ∧ l.machine.registers.result = none) ∧
    (∀ l s, Moment.Reachable (.offering l s) → s.Carried l.machine.registers) ∧
    (∀ m s, Moment.Reachable (.leaving m s) →
      s.Carried m.registers ∧ (m.popFrame s).2 ≠ .error (.internal .missingException) ∧
        (s = .returning → ∃ v, m.registers.result = some v ∧ (m.popFrame s).2 = .ok v)) ∧
    ∀ (m m' : Machine) (fuel : Nat) (code : CodeObject) (globals locals : Option (Ref .namespace))
      (r : Except Raised Value), m.runCode fuel code globals locals = some (m', r) →
        m'.frames = [] ∧ m'.registers.raised = none ∧ m'.registers.result = none := by
  refine ⟨?_, ?_, ?_, ?_⟩
  · intro l h
    have hempty : l.machine.registers = {} := h.fit
    rw [hempty]
    exact ⟨rfl, rfl⟩
  · intro l s h
    exact h.fit
  · intro m s h
    obtain ⟨f, below, hf⟩ := h.current
    obtain ⟨⟨m', result⟩, hpop⟩ : ∃ p, m.popFrame s = p := ⟨_, rfl⟩
    obtain ⟨-, hending⟩ := Machine.popFrame_ending hf h.fit hpop
    rw [hpop]
    refine ⟨h.fit, ?_, ?_⟩
    · rintro rfl
      cases hending
    · rintro rfl
      cases hending with
      | returned hresult => exact ⟨_, hresult, rfl⟩
  · intro m m' fuel code globals locals r h
    obtain ⟨m₁, result, hreach, hconclude⟩ := Machine.runCode_ended h
    obtain ⟨hframes, hregs⟩ := m₁.conclude_fst code result
    rw [hconclude] at hframes hregs
    have hempty : m₁.registers = {} := hreach.fit
    rw [hregs, hempty]
    exact ⟨hframes.trans hreach.current, rfl, rfl⟩

/-- A value is returned from the body of a finally block: the return waits while the handler
runs, and the value is there again when the frame ends. -/
theorem registers_carry_return :
    let code : CodeObject :=
      ⟨default, { Code.empty "f" with
        bytecode := #[122, 4, 0, 100, 0, 0, 83, 88], consts := #[.none] }⟩
    let m : Machine := { builtins := ⟨0⟩ }
    let x := Moment.ofTurn (m.start code none none)
    (∃ l, Moment.next^[2] x = .stepping l ∧
      l.machine.registers.raised = none ∧ l.machine.registers.result = none) ∧
    (∃ l, Moment.next^[3] x = .offering l .returning ∧
      Signal.returning.Carried l.machine.registers) ∧
    (∃ m₁, Moment.next^[6] x = .leaving m₁ .returning ∧
      ∃ v, m₁.registers.result = some v ∧ (m₁.popFrame .returning).2 = .ok v) ∧
    ∃ m', m.runCode 4 code none none = some (m', .ok .none) ∧
      m'.frames = [] ∧ m'.registers.raised = none ∧ m'.registers.result = none := by
  intro code m x
  have hmoments : (∃ l, Moment.next^[2] x = .stepping l) ∧
      (∃ l, Moment.next^[3] x = .offering l .returning) ∧
      ∃ m, Moment.next^[6] x = .leaving m .returning := by
    decide +kernel +revert
  obtain ⟨⟨l₂, h₂⟩, ⟨l₃, h₃⟩, m₆, h₆⟩ := hmoments
  have reach (n : Nat) : Moment.Reachable (Moment.next^[n] x) :=
    Moment.reachable_iterate (.start m code none none) n
  obtain ⟨stepping, offering, leaving, finished⟩ := registers_carry_signal
  obtain ⟨m', h'⟩ : ∃ m', m.runCode 4 code none none = some (m', .ok .none) := ⟨_, by cbv⟩
  refine ⟨⟨l₂, h₂, stepping l₂ (h₂ ▸ reach 2)⟩, ⟨l₃, h₃, offering l₃ _ (h₃ ▸ reach 3)⟩,
    ⟨m₆, h₆, (leaving m₆ _ (h₆ ▸ reach 6)).2.2 rfl⟩, m', h', ?_⟩
  exact finished m m' 4 code none none _ h'

end StackVM
