/-
What may follow a moment of a run. The run loop always knows the code of the current
frame; every moment but the last has a frame; and from one moment to the next the
frames and the registers change in one of ten ways.

* `Loop.InFrame`: the loop is in its current frame;
* `Moment.Transition`: the ten ways;
* `Moment.Reachable.transition`: in every run each moment follows the one before it in
  one of these ways.
-/
import StackVM.Proofs.Effect
import StackVM.Proofs.Moments

namespace StackVM

/-- The frame about to execute an instruction. -/
def Frame.fetched (f : Frame) (i : Instruction) : Frame :=
  { f with ip := i.next, offset := i.offset }

/-- The frame `f'` is the frame `f` at a later moment. -/
structure Frame.Continues (f f' : Frame) : Prop where
  code : f'.code = f.code
  locals : f'.locals = f.locals
  globals : f'.globals = f.globals
  builtins : f'.builtins = f.builtins
  cells : f'.cells = f.cells

namespace Frame.Continues

lemma refl (f : Frame) : f.Continues f :=
  ⟨rfl, rfl, rfl, rfl, rfl⟩

lemma trans {f f' f'' : Frame} (h : f.Continues f') (h' : f'.Continues f'') : f.Continues f'' :=
  ⟨h'.code.trans h.code, h'.locals.trans h.locals, h'.globals.trans h.globals,
    h'.builtins.trans h.builtins, h'.cells.trans h.cells⟩

lemma fetched (f : Frame) (i : Instruction) : f.Continues (f.fetched i) :=
  ⟨rfl, rfl, rfl, rfl, rfl⟩

end Frame.Continues

namespace Loop

/-- The run loop is in the frame `f`, with its code and the number of frames at hand. -/
structure InFrame (l : Loop) (f : Frame) (below : List Frame) : Prop where
  frames : l.machine.frames = f :: below
  code : l.code = f.code
  depth : l.depth = below.length + 1

lemma InFrame.frames_fetched {l : Loop} {f : Frame} {below : List Frame}
    (h : l.InFrame f below) (i : Instruction) : (l.fetched i).frames = f.fetched i :: below :=
  CallStack.frames_modifyTop h.frames _

end Loop

/-- An instruction that succeeds leaves the frames below alone. Either the current frame
goes on, or a call has put a frame on top of it. -/
lemma Effect.frames_cases {i : Instruction} {f : Frame} {below : List Frame} {m m' : Machine}
    {s : Option Signal} (h : Effect i f below m m' s) :
    (∃ f', m'.frames = f' :: below ∧ f.Continues f') ∨
      s = none ∧ i.opcode = some .callFunction ∧
        ∃ r locals callee g g', f.stack[Exec.argumentCount i.arg]? = some (.function r) ∧
          Frame.make (m.heap.function r).code (some (m.heap.function r).globals) (some locals)
            f.builtins (m.heap.function r).closure g = .ok callee g' ∧
          m'.frames =
            callee :: { f with stack := f.stack.drop (Exec.argumentCount i.arg + 1) } :: below := by
  cases h with
  | called opcode callable made _ frames _ =>
      exact .inr ⟨rfl, opcode, _, _, _, _, _, callable, made, frames⟩
  | moved _ frames _ => exact .inl ⟨_, frames, rfl, rfl, rfl, rfl, rfl⟩
  | opened _ frames _ => exact .inl ⟨_, frames, rfl, rfl, rfl, rfl, rfl⟩
  | closed _ _ frames _ => exact .inl ⟨_, frames, rfl, rfl, rfl, rfl, rfl⟩
  | finishing _ _ _ frames _ => exact .inl ⟨_, frames, rfl, rfl, rfl, rfl, rfl⟩
  | dropped _ frames _ => exact .inl ⟨_, frames, rfl, rfl, rfl, rfl, rfl⟩
  | resumed _ frames _ => exact .inl ⟨_, frames, rfl, rfl, rfl, rfl, rfl⟩
  | returned _ frames _ => exact .inl ⟨_, frames, rfl, rfl, rfl, rfl, rfl⟩
  | reraised _ frames _ => exact .inl ⟨_, frames, .refl f⟩
  | broken frames _ => exact .inl ⟨_, frames, .refl f⟩
  | continued _ frames _ => exact .inl ⟨_, frames, .refl f⟩

namespace Moment

/-- What follows a moment of a run. -/
inductive Transition : Moment → Moment → Prop where
  /-- The code of the current frame cannot be decoded. -/
  | undecodable {l : Loop} {m' : Machine} {f : Frame} {below : List Frame} {e : DecodeError}
      {r : Raised} (inside : l.InFrame f below) (decoded : f.code.code.decode f.ip = .error e)
      (frames : m'.frames = f :: below)
      (registers : m'.registers = { l.machine.registers with raised := some r }) :
      Transition (.stepping l) (.leaving m' .raising)
  /-- An instruction fails. -/
  | failed {l l' : Loop} {f : Frame} {below : List Frame} {i : Instruction} {n : Nat}
      {r : Raised} (inside : l.InFrame f below) (decoded : f.code.code.decode f.ip = .ok i)
      (inside' : l'.InFrame { f.fetched i with stack := f.stack.drop n } below)
      (registers : l'.machine.registers = { l.machine.registers with raised := some r }) :
      Transition (.stepping l) (.offering l' .raising)
  /-- An instruction asks for a change of control. -/
  | signalled {l l' : Loop} {f f' : Frame} {below : List Frame} {i : Instruction} {s : Signal}
      (inside : l.InFrame f below) (decoded : f.code.code.decode f.ip = .ok i)
      (effect : Effect i (f.fetched i) below (l.fetched i) l'.machine (some s))
      (inside' : l'.InFrame f' below) : Transition (.stepping l) (.offering l' s)
  /-- An instruction is done. -/
  | executed {l l' : Loop} {f f' : Frame} {below below' : List Frame} {i : Instruction}
      (inside : l.InFrame f below) (decoded : f.code.code.decode f.ip = .ok i)
      (effect : Effect i (f.fetched i) below (l.fetched i) l'.machine none)
      (inside' : l'.InFrame f' below') : Transition (.stepping l) (.stepping l')
  /-- A block takes a signal. -/
  | taken {l l' : Loop} {f : Frame} {below : List Frame} {s : Signal}
      (inside : l.InFrame f below)
      (unwound : (f.unwind s l.machine.registers).2.2 ≠ .escaped)
      (inside' : l'.InFrame (f.unwind s l.machine.registers).1 below)
      (registers : l'.machine.registers = (f.unwind s l.machine.registers).2.1) :
      Transition (.offering l s) (.stepping l')
  /-- No block takes a signal. -/
  | escaped {l : Loop} {m' : Machine} {f : Frame} {below : List Frame} {s : Signal}
      (inside : l.InFrame f below)
      (unwound : (f.unwind s l.machine.registers).2.2 = .escaped)
      (frames : m'.frames = (f.unwind s l.machine.registers).1 :: below)
      (registers : m'.registers = (f.unwind s l.machine.registers).2.1) :
      Transition (.offering l s) (.leaving m' s)
  /-- A frame ends with a value, which goes to the frame that called it. -/
  | returned {m m' : Machine} {l' : Loop} {f g : Frame} {below : List Frame} {s : Signal}
      {v : Value} (frames : m.frames = f :: g :: below) (popped : m.popFrame s = (m', .ok v))
      (inside' : l'.InFrame (g.push v) below)
      (registers : l'.machine.registers = m'.registers) :
      Transition (.leaving m s) (.stepping l')
  /-- A frame ends with a fault, which is raised in the frame that called it. -/
  | raised {m m' : Machine} {l' : Loop} {f g : Frame} {below : List Frame} {s : Signal}
      {e : Fault} (frames : m.frames = f :: g :: below)
      (popped : m.popFrame s = (m', .error e)) (inside' : l'.InFrame g below)
      (registers : l'.machine.registers =
        { m'.registers with raised := some (e.raisedAt g.place m'.heap).1 }) :
      Transition (.leaving m s) (.offering l' .raising)
  /-- The last frame ends. -/
  | finished {m m' : Machine} {f : Frame} {s : Signal} {result : Except Fault Value}
      (frames : m.frames = [f]) (popped : m.popFrame s = (m', result))
      (frames' : m'.frames = []) : Transition (.leaving m s) (.ended m' result)
  /-- Nothing happens any more. -/
  | ended (m : Machine) (result : Except Fault Value) :
      Transition (.ended m result) (.ended m result)

/-- There is a current frame until the run has ended, and the run loop is in it. -/
def Current : Moment → Prop
  | .stepping l => ∃ f below, l.InFrame f below
  | .offering l _ => ∃ f below, l.InFrame f below
  | .leaving m _ => ∃ f below, m.frames = f :: below
  | .ended m _ => m.frames = []

lemma Transition.current {x y : Moment} (h : Transition x y) (hx : x.Current) : y.Current := by
  cases h with
  | undecodable _ _ frames _ => exact ⟨_, _, frames⟩
  | failed _ _ inside' _ => exact ⟨_, _, inside'⟩
  | signalled _ _ _ inside' => exact ⟨_, _, inside'⟩
  | executed _ _ _ inside' => exact ⟨_, _, inside'⟩
  | taken _ _ inside' _ => exact ⟨_, _, inside'⟩
  | escaped _ _ frames _ => exact ⟨_, _, frames⟩
  | returned _ _ inside' _ => exact ⟨_, _, inside'⟩
  | raised _ _ inside' _ => exact ⟨_, _, inside'⟩
  | finished _ _ frames' => exact frames'
  | ended => exact hx

/-! ### Frames -/

/-- What becomes of the frames from one moment to the next. -/
inductive FrameStep (x y : Moment) : Prop where
  /-- The current frame goes on. -/
  | goes {f f' : Frame} {below : List Frame} (before : x.frames = f :: below)
      (after : y.frames = f' :: below) (same : f.Continues f')
  /-- The current frame calls. -/
  | calls {f f' callee : Frame} {below : List Frame} (before : x.frames = f :: below)
      (after : y.frames = callee :: f' :: below) (same : f.Continues f')
  /-- The current frame ends, and the one that called it goes on. -/
  | ends {f g g' : Frame} {below : List Frame} (leaving : ∃ m s, x = .leaving m s)
      (before : x.frames = f :: g :: below)
      (after : y.frames = g' :: below) (same : g.Continues g') (blocks : g'.blocks = g.blocks)
  /-- The last frame ends. -/
  | last {f : Frame} (leaving : ∃ m s, x = .leaving m s) (before : x.frames = [f])
  /-- There are no frames any more. -/
  | gone (before : x.frames = [])

lemma Transition.frameStep {x y : Moment} (h : Transition x y) (hx : x.Current) : FrameStep x y := by
  cases h with
  | undecodable inside _ frames _ => exact .goes inside.frames frames (.refl _)
  | failed inside _ inside' _ =>
      exact .goes inside.frames inside'.frames ⟨rfl, rfl, rfl, rfl, rfl⟩
  | signalled inside _ effect _ =>
      rcases effect.frames_cases with ⟨f', hf', hcont⟩ | ⟨hs, -⟩
      · exact .goes inside.frames hf' ((Frame.Continues.fetched _ _).trans hcont)
      · cases hs
  | executed inside _ effect _ =>
      rcases effect.frames_cases with ⟨f', hf', hcont⟩ | ⟨-, -, r, locals, callee, g, g', -, -, hf'⟩
      · exact .goes inside.frames hf' ((Frame.Continues.fetched _ _).trans hcont)
      · exact .calls inside.frames hf' ⟨rfl, rfl, rfl, rfl, rfl⟩
  | taken inside _ inside' _ =>
      exact .goes inside.frames inside'.frames ⟨rfl, rfl, rfl, rfl, rfl⟩
  | escaped inside _ frames _ => exact .goes inside.frames frames ⟨rfl, rfl, rfl, rfl, rfl⟩
  | returned frames _ inside' _ =>
      exact .ends ⟨_, _, rfl⟩ frames inside'.frames ⟨rfl, rfl, rfl, rfl, rfl⟩ rfl
  | raised frames _ inside' _ => exact .ends ⟨_, _, rfl⟩ frames inside'.frames (.refl _) rfl
  | finished frames _ _ => exact .last ⟨_, _, rfl⟩ frames
  | ended => exact .gone hx

/-! ### What follows -/

variable {l : Loop} {m : Machine} {f : Frame} {below : List Frame}

/-- The loop that goes on is in the current frame. -/
lemma enter_inFrame (hf : m.frames = f :: below) :
    ∃ l', ofTurn (Loop.enter m) = .stepping l' ∧ l'.machine = m ∧ l'.InFrame f below := by
  have hd : m.calls.depth = below.length + 1 := by
    rw [m.depth_eq_length, hf, List.length_cons]
  exact ⟨_, congrArg ofTurn (Loop.enter_of_cons hf), rfl, hf, rfl, hd⟩

/-- The instruction of a frame that succeeds without a signal. -/
lemma transition_executed {i : Instruction} {m' : Machine} (h : l.InFrame f below)
    (hd : f.code.code.decode f.ip = .ok i)
    (heffect : Effect i (f.fetched i) below (l.fetched i) m' none) :
    Transition (.stepping l) (ofTurn (l.resume m')) := by
  rcases heffect.frames_cases with ⟨f', hf', hcont⟩ | ⟨-, -, r, locals, callee, g, g', -, -, hf'⟩
  · obtain ⟨l', hl', rfl, hin⟩ := enter_inFrame hf'
    rw [Loop.resume_eq_enter hf' fun _ => h.code.trans hcont.code.symm, hl']
    exact .executed h hd heffect hin
  · -- a call has changed the number of frames, so that the code is fetched anew
    have hdepth : m'.calls.depth ≠ l.depth := by
      rw [m'.depth_eq_length, hf', h.depth, List.length_cons, List.length_cons]
      omega
    obtain ⟨l', hl', rfl, hin⟩ := enter_inFrame hf'
    rw [Loop.resume_eq_enter hf' fun heq => absurd heq hdepth, hl']
    exact .executed h hd heffect hin

lemma transition_stepping (h : l.InFrame f below) :
    Transition (.stepping l) (next (.stepping l)) := by
  cases hd : l.code.code.decode f.ip with
  | error e =>
      rw [next_stepping_undecodable h.frames hd]
      exact .undecodable h (h.code ▸ hd) h.frames (Machine.registers_capture _ _ _)
  | ok i =>
      rw [next_stepping_decoded h.frames hd]
      have hdecoded : f.code.code.decode f.ip = .ok i := h.code ▸ hd
      have hfetched := h.frames_fetched i
      rw [Machine.dispatch]
      cases hx : Exec.execute l.code i (l.fetched i) with
      | error e m' =>
          obtain ⟨⟨n, hn⟩, hregs, -⟩ := Exec.execute_failures _ _ _ _ _ hx _ _ hfetched
          have hraised := m'.registers_capture e ⟨l.code.code.name, i.offset⟩
          rw [hregs] at hraised
          exact .failed h hdecoded ⟨hn, h.code, h.depth⟩ hraised
      | ok s m' =>
          have heffect := Exec.execute_effect hfetched hx
          cases s with
          | none => exact transition_executed h hdecoded heffect
          | some s =>
              rcases heffect.frames_cases with ⟨f', hf', hcont⟩ | ⟨hs, -⟩
              · exact .signalled h hdecoded heffect ⟨hf', h.code.trans hcont.code.symm, h.depth⟩
              · cases hs

lemma transition_offering (h : l.InFrame f below) (s : Signal) :
    Transition (.offering l s) (next (.offering l s)) := by
  obtain ⟨m', hf', hregs, ⟨hout, hu⟩ | ⟨hout, hu⟩⟩ := Machine.unwind_cases h.frames s
  · rw [next_offering_escaped hu]
    exact .escaped h hout hf' hregs
  · obtain ⟨l', hl', hm, hin⟩ := enter_inFrame hf'
    rw [next_offering_taken hu, Loop.resume_eq_enter hf' fun _ => h.code, hl']
    exact .taken h hout hin (hm ▸ hregs)

/-- A signal that is offered changes the current frame, whether a block takes it or not. -/
lemma frames_next_offering (h : l.InFrame f below) (s : Signal) :
    (next (.offering l s)).frames = (f.unwind s l.machine.registers).1 :: below := by
  obtain ⟨m', hf', -, ⟨-, hu⟩ | ⟨-, hu⟩⟩ := Machine.unwind_cases h.frames s
  · rw [next_offering_escaped hu]
    exact hf'
  · obtain ⟨l', hl', rfl, -⟩ := enter_inFrame hf'
    rw [next_offering_taken hu, Loop.resume_eq_enter hf' fun _ => h.code, hl']
    exact hf'

lemma transition_leaving (hf : m.frames = f :: below) (s : Signal) :
    Transition (.leaving m s) (next (.leaving m s)) := by
  have hbelow := Machine.frames_popFrame hf s
  obtain ⟨⟨m', result⟩, hpop⟩ : ∃ r, m.popFrame s = r := ⟨_, rfl⟩
  rw [hpop] at hbelow
  cases below with
  | nil =>
      rw [next_leaving_last hpop hbelow]
      exact .finished hf hpop hbelow
  | cons g rest =>
      cases result with
      | ok v =>
          obtain ⟨l', hl', hm, hin⟩ := enter_inFrame (Machine.frames_withTop hbelow (g.push v))
          rw [next_leaving_ok hpop hbelow, hl']
          exact .returned hf hpop hin (hm ▸ rfl)
      | error e =>
          have hd : m'.calls.depth = rest.length + 1 := by
            rw [m'.depth_eq_length, hbelow, List.length_cons]
          rw [next_leaving_error hpop hbelow]
          exact .raised hf hpop ⟨hbelow, rfl, hd⟩ (Machine.registers_capture _ _ _)

/-- What follows a moment is a transition. -/
lemma Current.transition {x : Moment} (h : x.Current) : Transition x x.next := by
  cases x with
  | stepping l =>
      obtain ⟨f, below, hin⟩ := h
      exact transition_stepping hin
  | offering l s =>
      obtain ⟨f, below, hin⟩ := h
      exact transition_offering hin s
  | leaving m s =>
      obtain ⟨f, below, hf⟩ := h
      exact transition_leaving hf s
  | ended m result => exact .ended m result

/-! ### Runs -/

/-- A run starts in the frame of its code, or has ended before it started. -/
lemma start_cases (m : Machine) (code : CodeObject) (globals locals : Option (Ref .namespace)) :
    (∃ l f, m.start code globals locals = .running l ∧ l.InFrame f [] ∧
        l.machine.registers = {} ∧
        ∃ h h', Frame.make code globals locals m.builtins [] h = .ok f h') ∨
      ∃ m' c, m.start code globals locals = .ended m' (.error (.cause c)) ∧ m'.frames = [] ∧
        m'.registers = {} := by
  rw [Machine.start]
  split
  next m' h =>
    obtain ⟨f, m₁, h₁, h⟩ := bind_ok_iff.mp h
    obtain ⟨g, hmake, hm₁⟩ := Exec.lift_ok_iff.mp h₁
    obtain ⟨-, hframes, hregs⟩ := Exec.enter_ok h
    rw [hm₁] at hframes hregs
    have hdepth : m'.calls.depth = 1 := by
      rw [m'.depth_eq_length, hframes]
      rfl
    exact .inl ⟨_, f, Loop.enter_of_cons hframes, ⟨hframes, rfl, hdepth⟩, hregs, _, g, hmake⟩
  next e m' h =>
    rcases bind_error_iff.mp h with h | ⟨f, m₁, h₁, h⟩
    · obtain ⟨c, g, -, rfl, hm'⟩ := Exec.lift_error_iff.mp h
      exact .inr ⟨m', c, rfl, by rw [hm']; rfl, by rw [hm']⟩
    · obtain ⟨g, -, hm₁⟩ := Exec.lift_ok_iff.mp h₁
      obtain ⟨⟨c, rfl⟩, hm'⟩ := Exec.enter_error h
      exact .inr ⟨m', c, rfl, by rw [hm', hm₁]; rfl, by rw [hm', hm₁]⟩

/-- The run loop is in the current frame all the time. -/
lemma Reachable.current {x : Moment} (h : Reachable x) : x.Current := by
  induction h with
  | start m code globals locals =>
      rcases start_cases m code globals locals with ⟨l, f, ht, hin, -⟩ | ⟨m', e, ht, hf, -⟩
      · rw [ht]
        exact ⟨f, [], hin⟩
      · rw [ht]
        exact hf
  | next _ ih => exact ih.transition.current ih

/-- **In every run** each moment follows the one before it by a transition. -/
theorem Reachable.transition {x : Moment} (h : Reachable x) : Transition x x.next :=
  h.current.transition

end Moment

end StackVM
