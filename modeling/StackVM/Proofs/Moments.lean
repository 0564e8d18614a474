/-
The moments of a run: before an instruction, before a signal is offered to the blocks of
a frame, before a frame ends, and after the last one has ended. A turn of the run loop
is a sequence of moments, and so is the end of several frames in a row.

* `Moment`, `Moment.next`: the moments, and the one that follows each;
* `Moment.Reachable`: the moments of all runs;
* `Moment.run_eq_some_iff`: the moments end just as the run loop does.
-/
import Mathlib.Logic.Function.Iterate
import StackVM.Machine.Run
import StackVM.Proofs.Operands

namespace StackVM

/-- A moment of a run. -/
inductive Moment where
  /-- An instruction is to be executed. -/
  | stepping (l : Loop)
  /-- A signal is to be offered to the blocks of the current frame. -/
  | offering (l : Loop) (s : Signal)
  /-- The current frame is to end with a signal. -/
  | leaving (m : Machine) (s : Signal)
  /-- The last frame has ended. -/
  | ended (m : Machine) (result : Except Fault Value)

/-- The machine about to execute an instruction. -/
def Loop.fetched (l : Loop) (i : Instruction) : Machine :=
  (l.machine.record (.instruction l.code.code i)).advance i

/-- The run loop goes on with the machine `m`. -/
def Loop.resume (l : Loop) (m : Machine) : Turn :=
  if m.calls.depth = l.depth then .running { l with machine := m } else Loop.enter m

namespace Moment

/-- The moment after a turn. -/
def ofTurn : Turn → Moment
  | .running l => .stepping l
  | .ended m result => .ended m result

/-- The machine of a moment. -/
def machine : Moment → Machine
  | .stepping l => l.machine
  | .offering l _ => l.machine
  | .leaving m _ => m
  | .ended m _ => m

/-- The active frames of a moment, the current one first. -/
def frames (x : Moment) : List Frame :=
  x.machine.frames

/-- The payload of the signal under way. -/
def registers (x : Moment) : Registers :=
  x.machine.registers

instance (x : Moment) : Decidable (∃ l, x = .stepping l) :=
  match x with
  | .stepping l => isTrue ⟨l, rfl⟩
  | .offering _ _ | .leaving _ _ | .ended _ _ => isFalse fun ⟨_, h⟩ => by cases h

instance (x : Moment) (s : Signal) : Decidable (∃ l, x = .offering l s) :=
  match x with
  | .offering l s' =>
    if h : s' = s then isTrue ⟨l, h ▸ rfl⟩ else isFalse fun ⟨_, hl⟩ => h (by cases hl; rfl)
  | .stepping _ | .leaving _ _ | .ended _ _ => isFalse fun ⟨_, h⟩ => by cases h

instance (x : Moment) (s : Signal) : Decidable (∃ m, x = .leaving m s) :=
  match x with
  | .leaving m s' =>
    if h : s' = s then isTrue ⟨m, h ▸ rfl⟩ else isFalse fun ⟨_, hm⟩ => h (by cases hm; rfl)
  | .stepping _ | .offering _ _ | .ended _ _ => isFalse fun ⟨_, h⟩ => by cases h

/-- The frame that has `depth` frames below it ends. -/
def Ends (depth : Nat) : Moment → Prop
  | .leaving m _ => m.frames.length = depth + 1
  | _ => False

instance (depth : Nat) (x : Moment) : Decidable (x.Ends depth) :=
  match x with
  | .leaving m _ => inferInstanceAs (Decidable (m.frames.length = depth + 1))
  | .stepping _ | .offering _ _ | .ended _ _ => inferInstanceAs (Decidable False)

lemma ends_of_leaving {x : Moment} {depth : Nat} (h : ∃ m s, x = .leaving m s)
    (hlength : x.frames.length = depth + 1) : x.Ends depth := by
  obtain ⟨m, s, rfl⟩ := h
  exact hlength

/-- The moment that follows. -/
def next : Moment → Moment
  | .stepping l =>
    match l.machine.frames with
    | [] => .leaving (l.machine.capture (.internal .noActiveFrame) ⟨l.code.code.name, 0⟩) .raising
    | f :: _ =>
      match l.code.code.decode f.ip with
      | .error e =>
        .leaving (l.machine.capture (.cause (.undecodable e)) ⟨l.code.code.name, f.ip⟩) .raising
      | .ok i =>
        match (l.fetched i).dispatch l.code i with
        | (m, some s) => .offering { l with machine := m } s
        | (m, none) => ofTurn (l.resume m)
  | .offering l s =>
    match l.machine.unwind s with
    | (m, some s) => .leaving m s
    | (m, none) => ofTurn (l.resume m)
  | .leaving m s =>
    let (m, result) := m.popFrame s
    match m.frames with
    | [] => .ended m result
    | f :: _ =>
      match result with
      | .ok v => ofTurn (Loop.enter { m with calls := m.calls.modifyTop (·.push v) })
      | .error e => .offering ⟨m.capture e f.place, f.code, m.calls.depth⟩ .raising
  | .ended m result => .ended m result

/-- The moments of all runs, of any code in any namespaces. -/
inductive Reachable : Moment → Prop where
  | start (m : Machine) (code : CodeObject) (globals locals : Option (Ref .namespace)) :
      Reachable (ofTurn (m.start code globals locals))
  | next {x : Moment} (h : Reachable x) : Reachable x.next

lemma reachable_iterate {x : Moment} (h : Reachable x) (n : Nat) : Reachable (next^[n] x) := by
  induction n with
  | zero => exact h
  | succ n ih =>
      rw [Function.iterate_succ_apply']
      exact ih.next

end Moment

/-! ### Operations of the run loop -/

namespace CallStack

lemma pop?_of_nil {c : CallStack} (h : c.frames = []) : c.pop? = none := by
  rw [pop?]
  split
  next => rfl
  next h' => rw [h] at h'; cases h'

lemma pop?_of_cons {c : CallStack} {f : Frame} {below : List Frame} (h : c.frames = f :: below) :
    ∃ c', c.pop? = some (f, c') ∧ c'.frames = below := by
  rw [pop?]
  split
  next h' => rw [h] at h'; cases h'
  next f' below' h' =>
    rw [h] at h'
    cases h'
    exact ⟨_, rfl, rfl⟩

end CallStack

namespace Machine

variable {m : Machine} {f : Frame} {below : List Frame}

lemma depth_eq_length (m : Machine) : m.calls.depth = m.frames.length :=
  m.calls.depth_eq

lemma registers_capture (m : Machine) (e : Fault) (p : Place) :
    (m.capture e p).registers = { m.registers with raised := some (e.raisedAt p m.heap).1 } :=
  rfl

/-- A signal is offered to the blocks of the current frame, and comes back if it has
escaped them. -/
lemma unwind_cases (hf : m.frames = f :: below) (s : Signal) :
    ∃ m', m'.frames = (f.unwind s m.registers).1 :: below ∧
      m'.registers = (f.unwind s m.registers).2.1 ∧
      ((f.unwind s m.registers).2.2 = .escaped ∧ m.unwind s = (m', some s) ∨
        (f.unwind s m.registers).2.2 ≠ .escaped ∧ m.unwind s = (m', none)) := by
  obtain ⟨⟨f', regs, unwound⟩, hu⟩ : ∃ u, f.unwind s m.registers = u := ⟨_, rfl⟩
  have hframes := CallStack.frames_modifyTop hf fun _ => f'
  rw [unwind, hf]
  simp only [hu]
  clear hu
  cases unwound with
  | escaped =>
      refine ⟨_, ?_, ?_, .inl ⟨rfl, rfl⟩⟩
      · exact hframes
      · rfl
  | continued =>
      refine ⟨_, ?_, ?_, .inr ⟨nofun, rfl⟩⟩
      · exact hframes
      · rfl
  | consumed kind handler =>
      refine ⟨_, ?_, ?_, .inr ⟨nofun, rfl⟩⟩
      · exact hframes
      · rfl

/-- The frame that ends is gone. -/
lemma frames_popFrame (hf : m.frames = f :: below) (s : Signal) :
    (m.popFrame s).1.frames = below := by
  obtain ⟨c, hc, hbelow⟩ := CallStack.pop?_of_cons hf
  rw [popFrame, hc]
  cases s with
  | raising =>
      dsimp only [record]
      split <;> exact hbelow
  | _ => exact hbelow

end Machine

namespace Loop

variable {m : Machine} {f : Frame} {below : List Frame}

/-- The loop that goes on has the code of the current frame and the number of frames. -/
lemma enter_of_cons (hf : m.frames = f :: below) :
    enter m = .running ⟨m, f.code, m.calls.depth⟩ := by
  rw [enter, hf]

/-- A loop that goes on has the code of the current frame, if that is still the code it
had whenever the number of frames is. -/
lemma resume_eq_enter {l : Loop} (hf : m.frames = f :: below)
    (hcode : m.calls.depth = l.depth → l.code = f.code) : l.resume m = enter m := by
  rw [resume, enter_of_cons hf]
  split
  next hd => rw [hd, ← hcode hd]
  next => rfl

/-- The loop goes on as it is while the number of frames stays. -/
lemma resume_of_length {l : Loop} (h : m.frames.length = l.depth) :
    l.resume m = .running { l with machine := m } := by
  rw [resume, if_pos (m.depth_eq_length.trans h)]

end Loop

/-! ### Turns and moments -/

namespace Moment

variable {l : Loop} {m m' : Machine} {s s' : Signal} {f : Frame} {below : List Frame}

lemma next_stepping_undecodable {e : DecodeError} (hf : l.machine.frames = f :: below)
    (hd : l.code.code.decode f.ip = .error e) :
    next (.stepping l) =
      .leaving (l.machine.capture (.cause (.undecodable e)) ⟨l.code.code.name, f.ip⟩) .raising := by
  rw [next, hf]
  simp only [hd]

/-- An instruction is executed. -/
lemma next_stepping_decoded {i : Instruction} (hf : l.machine.frames = f :: below)
    (hd : l.code.code.decode f.ip = .ok i) :
    next (.stepping l) =
      match (l.fetched i).dispatch l.code i with
      | (m, some s) => .offering { l with machine := m } s
      | (m, none) => ofTurn (l.resume m) := by
  rw [next, hf]
  simp only [hd]

/-- The last frame ends. -/
lemma next_leaving_last {result : Except Fault Value} (hpop : m.popFrame s = (m', result))
    (hf : m'.frames = []) : next (.leaving m s) = .ended m' result := by
  rw [next, hpop]
  simp only [hf]

/-- A frame ends with a value: it is pushed in the frame that called. -/
lemma next_leaving_ok {v : Value} (hpop : m.popFrame s = (m', .ok v))
    (hf : m'.frames = f :: below) :
    next (.leaving m s) = ofTurn (Loop.enter (m'.withTop (f.push v))) := by
  rw [next, hpop]
  simp only [hf, Machine.modifyTop_eq_withTop hf]

/-- A frame ends with a fault: it is raised in the frame that called. -/
lemma next_leaving_error {e : Fault} (hpop : m.popFrame s = (m', .error e))
    (hf : m'.frames = f :: below) :
    next (.leaving m s) =
      .offering ⟨m'.capture e f.place, f.code, m'.calls.depth⟩ .raising := by
  rw [next, hpop]
  simp only [hf]

lemma next_offering_escaped (hu : l.machine.unwind s = (m', some s')) :
    next (.offering l s) = .leaving m' s' := by
  rw [next, hu]

lemma next_offering_taken (hu : l.machine.unwind s = (m', none)) :
    next (.offering l s) = ofTurn (l.resume m') := by
  rw [next, hu]

/-- After the last frame has ended nothing happens. -/
lemma iterate_ended (m : Machine) (result : Except Fault Value) (n : Nat) :
    next^[n] (.ended m result) = .ended m result := by
  induction n with
  | zero => rfl
  | succ n ih => rw [Function.iterate_succ_apply', ih, next]

/-- Frames that end in a row, moment by moment. -/
lemma iterate_leaving (n : Nat) (s : Signal) (m : Machine) (hn : m.calls.depth = n) :
    ∃ k, next^[k + 1] (.leaving m s) = ofTurn (Loop.settle n s m) := by
  induction n generalizing s m with
  | zero =>
      have hf : m.frames = [] := List.length_eq_zero_iff.mp (m.depth_eq_length ▸ hn)
      have hpop : m.popFrame s = (m, .error (.internal .frameUnderflow)) := by
        rw [Machine.popFrame, CallStack.pop?_of_nil hf]
      exact ⟨0, next_leaving_last hpop hf⟩
  | succ n ih =>
      obtain ⟨f, below, hf⟩ := List.exists_cons_of_length_eq_add_one (m.depth_eq_length ▸ hn)
      have hbelow := Machine.frames_popFrame hf s
      obtain ⟨⟨m₁, result⟩, hpop⟩ : ∃ r, m.popFrame s = r := ⟨_, rfl⟩
      rw [hpop] at hbelow
      rw [Loop.settle, hpop]
      cases below with
      | nil =>
          simp only [hbelow]
          exact ⟨0, next_leaving_last hpop hbelow⟩
      | cons g rest =>
          simp only [hbelow]
          cases result with
          | ok v =>
              have hg := Machine.frames_withTop hbelow (g.push v)
              have hdepth : (m₁.withTop (g.push v)).calls.depth = m₁.calls.depth := by
                rw [Machine.depth_eq_length, hg, m₁.depth_eq_length, hbelow]
                rfl
              simp only [Machine.modifyTop_eq_withTop hbelow]
              refine ⟨0, (next_leaving_ok hpop hbelow).trans ?_⟩
              rw [Loop.enter_of_cons hg, hdepth]
              rfl
          | error e =>
              have hraise := next_leaving_error hpop hbelow
              rw [Frame.place] at hraise
              have hg : (m₁.capture e ⟨g.code.code.name, g.offset⟩).frames = g :: rest := hbelow
              have hlength : n = rest.length + 1 := by
                have hlen := m.depth_eq_length
                rw [hn, hf, List.length_cons, List.length_cons] at hlen
                omega
              obtain ⟨m₂, hf₂, -, ⟨-, hu⟩ | ⟨-, hu⟩⟩ := Machine.unwind_cases hg .raising
              · -- the frame that called ends in turn
                have hd₂ : m₂.calls.depth = n := by
                  rw [m₂.depth_eq_length, hf₂, List.length_cons, hlength]
                obtain ⟨k, hk⟩ := ih .raising m₂ hd₂
                refine ⟨k + 2, ?_⟩
                simp only [hu]
                rw [Function.iterate_succ_apply, hraise, Function.iterate_succ_apply,
                  next_offering_escaped hu, hk]
              · -- it goes on by the code that was fetched before its blocks were tried
                refine ⟨1, ?_⟩
                simp only [hu]
                rw [Function.iterate_succ_apply, hraise, Function.iterate_one,
                  next_offering_taken hu]
                refine congrArg ofTurn (Loop.resume_of_length ?_)
                rw [m₁.depth_eq_length, hbelow, hf₂]
                rfl

/-- A turn of the run loop, moment by moment. -/
lemma iterate_stepping (l : Loop) : ∃ k, next^[k + 1] (.stepping l) = ofTurn l.tick := by
  have goes : ∀ m, l.machine.step l.code = (m, none) → ofTurn l.tick = ofTurn (l.resume m) := by
    intro m h
    rw [Loop.tick, h]
    rfl
  have ends : ∀ m s, l.machine.step l.code = (m, some s) →
      ofTurn l.tick = ofTurn (Loop.settle m.calls.depth s m) := by
    intro m s h
    rw [Loop.tick, h]
  cases hf : l.machine.frames with
  | nil =>
      obtain ⟨m₁, hm₁⟩ : ∃ m₁, l.machine.capture (.internal .noActiveFrame)
          ⟨l.code.code.name, 0⟩ = m₁ := ⟨_, rfl⟩
      have hstep : l.machine.step l.code = (m₁, some .raising) := by
        rw [Machine.step, hf, ← hm₁]
      obtain ⟨k, hk⟩ := iterate_leaving _ .raising m₁ rfl
      refine ⟨k + 1, ?_⟩
      rw [Function.iterate_succ_apply, next, hf, ends _ _ hstep, ← hk, ← hm₁]
  | cons f below =>
      cases hd : l.code.code.decode f.ip with
      | error e =>
          have hnext := next_stepping_undecodable hf hd
          obtain ⟨m₁, hm₁⟩ : ∃ m₁, l.machine.capture (.cause (.undecodable e))
              ⟨l.code.code.name, f.ip⟩ = m₁ := ⟨_, rfl⟩
          have hstep : l.machine.step l.code = (m₁, some .raising) := by
            rw [Machine.step, hf]
            simp only [hd, hm₁]
          obtain ⟨k, hk⟩ := iterate_leaving _ .raising m₁ rfl
          refine ⟨k + 1, ?_⟩
          rw [Function.iterate_succ_apply, hnext, hm₁, ends _ _ hstep, ← hk]
      | ok i =>
          have hnext := next_stepping_decoded hf hd
          obtain ⟨⟨m₁, signal⟩, hdispatch⟩ : ∃ r, (l.fetched i).dispatch l.code i = r := ⟨_, rfl⟩
          have hstep : l.machine.step l.code = match (m₁, signal) with
              | (m, some s) => m.unwind s
              | (m, none) => (m, none) := by
            rw [← hdispatch, Machine.step, hf]
            simp only [hd]
            rfl
          rw [hdispatch] at hnext
          cases signal with
          | none => exact ⟨0, hnext.trans (goes _ hstep).symm⟩
          | some s =>
              obtain ⟨⟨m₂, rest⟩, hu⟩ : ∃ r, m₁.unwind s = r := ⟨_, rfl⟩
              simp only [hu] at hstep
              cases rest with
              | none =>
                  refine ⟨1, ?_⟩
                  rw [Function.iterate_succ_apply, hnext, Function.iterate_one,
                    next_offering_taken hu, goes _ hstep]
                  rfl
              | some s' =>
                  obtain ⟨k, hk⟩ := iterate_leaving _ s' m₂ rfl
                  refine ⟨k + 2, ?_⟩
                  rw [Function.iterate_succ_apply, hnext, Function.iterate_succ_apply,
                    next_offering_escaped hu, hk, ends _ _ hstep]

/-- **The moments of a run end** just as the run loop does, if they end at all. -/
theorem run_eq_some_iff {t : Turn} {result : Except Fault Value} :
    (∃ fuel, Loop.run fuel t = some (m, result)) ↔ ∃ n, next^[n] (ofTurn t) = .ended m result := by
  constructor
  · rintro ⟨fuel, h⟩
    induction fuel generalizing t with
    | zero =>
        cases t with
        | running l => cases h
        | ended m₁ result₁ =>
            cases h
            exact ⟨0, rfl⟩
    | succ fuel ih =>
        cases t with
        | running l =>
            obtain ⟨n, hn⟩ := ih h
            obtain ⟨k, hk⟩ := iterate_stepping l
            refine ⟨n + (k + 1), ?_⟩
            rw [Function.iterate_add_apply]
            exact (congrArg _ hk).trans hn
        | ended m₁ result₁ =>
            cases h
            exact ⟨0, rfl⟩
  · rintro ⟨n, h⟩
    -- a turn takes one moment at least, so that fewer are left after it
    induction n using Nat.strongRecOn generalizing t with
    | ind n ih =>
        cases t with
        | ended m₁ result₁ =>
            rw [ofTurn, iterate_ended] at h
            cases h
            exact ⟨0, rfl⟩
        | running l =>
            obtain ⟨k, hk⟩ := iterate_stepping l
            by_cases hle : k + 1 ≤ n
            · obtain ⟨j, rfl⟩ := Nat.exists_eq_add_of_le' hle
              rw [Function.iterate_add_apply, ofTurn, hk] at h
              obtain ⟨fuel, hfuel⟩ := ih j (by omega) h
              exact ⟨fuel + 1, hfuel⟩
            · obtain ⟨j, hj⟩ := Nat.exists_eq_add_of_le' (Nat.le_of_not_le hle)
              rw [hj, Function.iterate_add_apply] at hk
              rw [ofTurn] at h
              rw [h, iterate_ended] at hk
              cases ht : l.tick with
              | running l' =>
                  rw [ht] at hk
                  cases hk
              | ended m₁ result₁ =>
                  rw [ht] at hk
                  cases hk
                  exact ⟨1, by rw [Loop.run, ht, Loop.run]⟩

end Moment

end StackVM
