/-
The run loop keeps the code of the current frame and the number of frames at hand. It
fetches them anew when a frame has ended, or when a step has changed the number of frames.
They are never out of date: a run that keeps nothing, and fetches the code of the current
frame before every instruction, goes through the same machines.

* `Turn.next`: the turns of the run loop;
* `Progress`, `Machine.proceed`, `Machine.runFetching`: the run that keeps nothing;
* `Machine.frames_step_ne_nil`: a step ends no frame;
* `Turn.progress_next`: a turn does what the run that keeps nothing does;
* `code_at_hand_is_current`: so does every run, of any length.
-/
import StackVM.Proofs.Transition

namespace StackVM

/-- The turn that follows. -/
def Turn.next : Turn → Turn
  | .running l => l.tick
  | .ended m result => .ended m result

/-! ### Runs that keep nothing at hand -/

/-- How a run stands that keeps nothing at hand. -/
inductive Progress where
  /-- An instruction is to be executed. -/
  | going (m : Machine)
  /-- The last frame has ended. -/
  | ended (m : Machine) (result : Except Fault Value)

namespace Machine

/-- Ends the current frame with a signal, and the frames that end with it. There are at most
`n` frames to end. -/
def endFrames : Nat → Signal → Machine → Progress
  | 0, _, m => .ended m (.error (.internal .frameUnderflow))
  | n + 1, s, m =>
    let (m, result) := m.popFrame s
    match m.frames with
    | [] => .ended m result
    | f :: _ =>
      match result with
      | .ok v => .going { m with calls := m.calls.modifyTop (·.push v) }
      | .error e =>
        match (m.capture e f.place).unwind .raising with
        | (m, some s) => endFrames n s m
        | (m, none) => .going m

/-- Fetches the code of the current frame, executes its next instruction, and ends the
frames that this ends. -/
def proceed (m : Machine) : Progress :=
  match m.frames with
  | [] => .ended m (.error (.internal .noActiveFrame))
  | f :: _ =>
    match m.step f.code with
    | (m, none) => .going m
    | (m, some s) => endFrames m.calls.depth s m

end Machine

namespace Progress

/-- What follows. -/
def next : Progress → Progress
  | .going m => m.proceed
  | .ended m result => .ended m result

/-- The result, if the run has ended. -/
def result? : Progress → Option (Machine × Except Fault Value)
  | .going _ => none
  | .ended m result => some (m, result)

end Progress

/-- The run loop without what it keeps at hand. -/
def Turn.progress : Turn → Progress
  | .running l => .going l.machine
  | .ended m result => .ended m result

/-- Runs a code object to its end, in at most `n` turns, with the code of the current frame
fetched before each instruction. -/
def Machine.runFetching (m : Machine) (n : Nat) (code : CodeObject)
    (globals locals : Option (Ref .namespace)) : Option (Machine × Except Raised Value) :=
  (Progress.next^[n] (m.start code globals locals).progress).result?.map fun r =>
    r.1.conclude code r.2

/-! ### Steps and frames -/

namespace Machine

variable {m : Machine}

lemma frames_dispatch_ne_nil (hm : m.frames ≠ []) (code : CodeObject) (i : Instruction) :
    (m.dispatch code i).1.frames ≠ [] := by
  obtain ⟨f, below, hf⟩ := List.exists_cons_of_ne_nil hm
  rw [dispatch]
  cases hx : Exec.execute code i m with
  | error e m' =>
      obtain ⟨n, hn⟩ := (Exec.execute_failures code i m e m' hx f below hf).frames
      exact ne_of_eq_of_ne hn (List.cons_ne_nil _ _)
  | ok s m' =>
      rcases (Exec.execute_effect hf hx).frames_cases with
        ⟨f', hf', -⟩ | ⟨-, -, r, locals, callee, g, g', -, -, hf'⟩ <;>
        exact ne_of_eq_of_ne hf' (List.cons_ne_nil _ _)

lemma frames_unwind_ne_nil (hm : m.frames ≠ []) (s : Signal) : (m.unwind s).1.frames ≠ [] := by
  obtain ⟨f, below, hf⟩ := List.exists_cons_of_ne_nil hm
  obtain ⟨m', hf', -, ⟨-, hu⟩ | ⟨-, hu⟩⟩ := unwind_cases hf s <;>
    exact hu ▸ ne_of_eq_of_ne hf' (List.cons_ne_nil _ _)

/-- A step ends no frame: there is a current one after it. -/
lemma frames_step_ne_nil (hm : m.frames ≠ []) (code : CodeObject) :
    (m.step code).1.frames ≠ [] := by
  obtain ⟨f, below, hf⟩ := List.exists_cons_of_ne_nil hm
  rw [step, hf]
  cases hd : code.code.decode f.ip with
  | error e =>
      simp only [hd]
      exact hm
  | ok i =>
      simp only [hd]
      have hadvanced : ((m.record (.instruction code.code i)).advance i).frames ≠ [] :=
        ne_of_eq_of_ne (CallStack.frames_modifyTop hf _) (List.cons_ne_nil _ _)
      have hdispatch := frames_dispatch_ne_nil hadvanced code i
      obtain ⟨⟨m', signal⟩, hr⟩ :
          ∃ r, ((m.record (.instruction code.code i)).advance i).dispatch code i = r := ⟨_, rfl⟩
      rw [hr] at hdispatch ⊢
      cases signal with
      | none => exact hdispatch
      | some s => exact frames_unwind_ne_nil hdispatch s

end Machine

/-! ### Turns -/

/-- Frames end in the same way, whether their code is kept at hand or not. -/
lemma Loop.progress_settle (n : Nat) (s : Signal) (m : Machine) :
    (settle n s m).progress = m.endFrames n s := by
  induction n generalizing s m with
  | zero => rfl
  | succ n ih =>
      obtain ⟨⟨m₁, result⟩, hpop⟩ : ∃ r, m.popFrame s = r := ⟨_, rfl⟩
      rw [settle, Machine.endFrames, hpop]
      cases hf : m₁.frames with
      | nil =>
          simp only [hf]
          rfl
      | cons f below =>
          simp only [hf]
          cases result with
          | ok v => rfl
          | error e =>
              obtain ⟨⟨m₂, signal⟩, hu⟩ :
                  ∃ r, (m₁.capture e ⟨f.code.code.name, f.offset⟩).unwind .raising = r := ⟨_, rfl⟩
              simp only [Frame.place, hu]
              cases signal with
              | none => rfl
              | some s' => exact ih s' m₂

/-- A turn of a loop that is in its current frame goes by the code of that frame. -/
lemma Loop.progress_tick {l : Loop} {f : Frame} {below : List Frame} (h : l.InFrame f below) :
    l.tick.progress = l.machine.proceed := by
  have hframes : (l.machine.step f.code).1.frames ≠ [] :=
    Machine.frames_step_ne_nil (ne_of_eq_of_ne h.frames (List.cons_ne_nil _ _)) f.code
  obtain ⟨⟨m', signal⟩, hstep⟩ : ∃ r, l.machine.step f.code = r := ⟨_, rfl⟩
  rw [hstep] at hframes
  rw [tick, Machine.proceed, h.frames, h.code]
  simp only [hstep]
  cases signal with
  | some s => exact progress_settle _ s m'
  | none =>
      -- the machine is the same, whether the number of frames has changed or not
      obtain ⟨g, rest, hg⟩ := List.exists_cons_of_ne_nil hframes
      show Turn.progress (if _ then _ else _) = _
      split
      next => rfl
      next =>
        rw [enter_of_cons hg]
        rfl

lemma Moment.ofTurn_eq_stepping {t : Turn} {l : Loop} (h : ofTurn t = .stepping l) :
    t = .running l := by
  cases t with
  | running l' =>
      cases h
      rfl
  | ended m result => cases h

namespace Turn

variable {t : Turn}

lemma reachable_next (h : Moment.Reachable (.ofTurn t)) : Moment.Reachable (.ofTurn t.next) := by
  cases t with
  | running l =>
      obtain ⟨k, hk⟩ := Moment.iterate_stepping l
      rw [next, ← hk]
      exact Moment.reachable_iterate h (k + 1)
  | ended m result => exact h

/-- A turn does what the run that keeps nothing does. -/
lemma progress_next (h : Moment.Reachable (.ofTurn t)) : t.next.progress = t.progress.next := by
  cases t with
  | running l =>
      obtain ⟨f, below, hin⟩ := h.current
      exact Loop.progress_tick hin
  | ended m result => rfl

lemma reachable_iterate (h : Moment.Reachable (.ofTurn t)) (n : Nat) :
    Moment.Reachable (.ofTurn (next^[n] t)) := by
  induction n with
  | zero => exact h
  | succ n ih =>
      rw [Function.iterate_succ_apply']
      exact reachable_next ih

/-- The turns of a run go through the machines of the run that keeps nothing. -/
lemma progress_iterate (h : Moment.Reachable (.ofTurn t)) (n : Nat) :
    (next^[n] t).progress = Progress.next^[n] t.progress := by
  induction n with
  | zero => rfl
  | succ n ih =>
      rw [Function.iterate_succ_apply', Function.iterate_succ_apply',
        progress_next (reachable_iterate h n), ih]

/-- The run loop gives the result that its turns come to. -/
lemma run_eq_result? (n : Nat) (t : Turn) : Loop.run n t = (next^[n] t).progress.result? := by
  induction n generalizing t with
  | zero => cases t <;> rfl
  | succ n ih =>
      rw [Function.iterate_succ_apply, ← ih]
      cases t with
      | running l => rfl
      | ended m result => rw [next, Loop.run, Loop.run]

end Turn

/-- **The code at hand is always current.** Whenever the run loop executes an instruction, in
any run, the code at hand is that of the current frame and the number at hand is that of the
frames. So the run goes through the same machines, with the same result after as many turns,
as one that fetches the code of the current frame before every instruction. -/
theorem code_at_hand_is_current (m : Machine) (code : CodeObject)
    (globals locals : Option (Ref .namespace)) (n : Nat) :
    (∀ l, Turn.next^[n] (m.start code globals locals) = .running l →
      l.machine.frames.head?.map Frame.code = some l.code ∧
        l.depth = l.machine.frames.length) ∧
    (Turn.next^[n] (m.start code globals locals)).progress =
      Progress.next^[n] (m.start code globals locals).progress ∧
    m.runCode n code globals locals = m.runFetching n code globals locals := by
  have hstart : Moment.Reachable (.ofTurn (m.start code globals locals)) :=
    .start m code globals locals
  have hprogress := Turn.progress_iterate hstart n
  refine ⟨?_, hprogress, ?_⟩
  · intro l hl
    have hreach := Turn.reachable_iterate hstart n
    rw [hl] at hreach
    obtain ⟨f, below, hin⟩ := hreach.current
    rw [hin.frames, hin.code, hin.depth]
    exact ⟨rfl, rfl⟩
  · rw [Machine.runCode, Machine.runFetching, Turn.run_eq_result?, hprogress]
    cases (Progress.next^[n] (m.start code globals locals).progress).result? <;> rfl

/-- A program calls, under an except block, a function that calls another, whose code cannot be
decoded. The turn that finds this ends both functions, and the program goes on by its own code. -/
theorem code_at_hand_after_unwinding :
    let code : CodeObject :=
      ⟨default, { Code.empty "f" with
        bytecode := #[121, 10, 0, 100, 0, 0, 132, 0, 0, 131, 0, 0, 83, 83]
        consts := #[.code { Code.empty "g" with
          bytecode := #[100, 0, 0, 132, 0, 0, 131, 0, 0, 83]
          consts := #[.code (Code.empty "h")] }] }⟩
    let m : Machine := { builtins := ⟨0⟩ }
    let turn (n : Nat) := Turn.next^[n] (m.start code none none)
    ∃ l l', turn 7 = .running l ∧ l.code.code.name = "h" ∧ l.depth = 3 ∧
      turn 8 = .running l' ∧ l'.code.code.name = "f" ∧ l'.depth = 1 ∧
      ∃ m' v, m.runCode 9 code none none = some (m', .ok v) ∧
        m.runFetching 9 code none none = some (m', .ok v) := by
  intro code m turn
  have hturns : (∃ l, Moment.ofTurn (turn 7) = .stepping l) ∧
      (Moment.ofTurn (turn 7)).frames.map (·.code.code.name) = ["h", "g", "f"] ∧
      (∃ l, Moment.ofTurn (turn 8) = .stepping l) ∧
      (Moment.ofTurn (turn 8)).frames.map (·.code.code.name) = ["f"] := by
    decide +kernel +revert
  have hrun : (m.runCode 9 code none none).any (·.2.isOk) := by
    clear hturns
    decide +kernel +revert
  -- what is at hand in a turn, from the names of the frames
  have atHand (n : Nat) (l : Loop) (name : String) (names : List String)
      (hl : Moment.ofTurn (turn n) = .stepping l)
      (hnames : (Moment.ofTurn (turn n)).frames.map (·.code.code.name) = name :: names) :
      turn n = .running l ∧ l.code.code.name = name ∧ l.depth = names.length + 1 := by
    have hturn := Moment.ofTurn_eq_stepping hl
    obtain ⟨hcode, hdepth⟩ := (code_at_hand_is_current m code none none n).1 l hturn
    rw [hl] at hnames
    obtain ⟨f, below, hf, rfl, rfl⟩ := List.map_eq_cons_iff.mp hnames
    have hframes : l.machine.frames = f :: below := hf
    rw [hframes] at hcode hdepth
    have hcode : f.code = l.code := Option.some.inj hcode
    exact ⟨hturn, by rw [hcode], by rw [hdepth, List.length_map, List.length_cons]⟩
  obtain ⟨⟨l, hl⟩, hnames, ⟨l', hl'⟩, hnames'⟩ := hturns
  obtain ⟨hturn, hname, hdepth⟩ := atHand 7 l "h" ["g", "f"] hl hnames
  obtain ⟨hturn', hname', hdepth'⟩ := atHand 8 l' "f" [] hl' hnames'
  refine ⟨l, l', hturn, hname, hdepth, hturn', hname', hdepth', ?_⟩
  rw [← (code_at_hand_is_current m code none none 9).2.2]
  obtain ⟨⟨m', result⟩, hresult, hok⟩ := (Option.any_eq_true _ _).mp hrun
  cases result with
  | ok v => exact ⟨m', v, hresult, hresult⟩
  | error r => cases hok

end StackVM
