/-
Where exceptions come from. An exception of a run is under way, or waits in a block for the end of
a handler, or is the result of the run. From one moment to the next an exception can pass from one
of these to another, but a new one comes from a fault alone.

* `Moment.Keeps`: an exception is there at a moment;
* `Moment.fault?`: the fault that comes up at a moment;
* `Moment.Raises`: it is raised as the exception;
* `Moment.Reachable.keeps_next`, `Moment.exists_raises`: **every exception of a run** comes from a
  fault at an earlier moment.
-/
import StackVM.Proofs.CallNesting
import StackVM.Proofs.SealedRuns

namespace StackVM

/-! ### Exceptions that are there -/

/-- The exception is under way. -/
def Registers.Keeps (regs : Registers) (exc : ExcObject) : Prop :=
  ∃ r, regs.raised = some r ∧ r.exc = exc

/-- The exception waits in a block for the end of a handler. -/
def Frame.Keeps (f : Frame) (exc : ExcObject) : Prop :=
  ∃ b ∈ f.blocks, ∃ r, b.kind = .cleanup (.raising r) ∧ r.exc = exc

/-- The exception is under way or waits in a frame. -/
def Machine.Keeps (m : Machine) (exc : ExcObject) : Prop :=
  m.registers.Keeps exc ∨ ∃ f ∈ m.frames, f.Keeps exc

variable {exc : ExcObject}

lemma Registers.not_keeps_empty : ¬ Registers.Keeps {} exc := by
  rintro ⟨r, hr, -⟩
  cases hr

lemma Frame.Keeps.of_subset {f f' : Frame} (h : f'.Keeps exc) (hsub : f'.blocks ⊆ f.blocks) :
    f.Keeps exc := by
  obtain ⟨b, hb, hr⟩ := h
  exact ⟨b, hsub hb, hr⟩

lemma Frame.not_keeps_of_nil {f : Frame} (h : f.blocks = []) : ¬ f.Keeps exc := by
  rintro ⟨b, hb, -⟩
  rw [h] at hb
  cases hb

/-- Frames that differ in the first one. -/
lemma exists_keeps_cons {f f' : Frame} {below : List Frame} (h : ∃ g ∈ f' :: below, g.Keeps exc)
    (hfirst : f'.Keeps exc → f.Keeps exc) : ∃ g ∈ f :: below, g.Keeps exc := by
  rw [List.exists_mem_cons_iff] at h ⊢
  exact h.imp_left hfirst

/-- What a machine keeps once a fault is captured. -/
lemma Machine.Keeps.of_capture {m : Machine} {e : Fault} {p : Place}
    (h : (m.capture e p).Keeps exc) :
    (e.raisedAt p m.heap).1.exc = exc ∨ ∃ f ∈ m.frames, f.Keeps exc := by
  rcases h with ⟨r, hr, hexc⟩ | h
  · cases hr
    exact .inl hexc
  · exact .inr h

/-- The exception whose handler is running waits in a frame. -/
lemma exists_keeps_of_handled {fs : List Frame} {r : Raised}
    (h : fs.findSome? Frame.handled? = some r) : ∃ f ∈ fs, f.Keeps r.exc := by
  obtain ⟨f, hf, hhandled⟩ := List.exists_of_findSome?_eq_some h
  obtain ⟨b, hb, hkind⟩ := List.exists_of_findSome?_eq_some hhandled
  refine ⟨f, hf, b, hb, r, ?_, rfl⟩
  split at hkind
  next r' hr' =>
    cases hkind
    exact hr'
  · cases hkind

/-- A frame that gets a signal keeps what it kept, and the exception that is under way. -/
lemma Frame.Keeps.of_unwind {f : Frame} {s : Signal} {regs : Registers} (hs : s.Carried regs)
    (h : (f.unwind s regs).1.Keeps exc) : f.Keeps exc ∨ regs.Keeps exc := by
  obtain ⟨b, hb, r, hkind, hexc⟩ := h
  have hblocks : (f.unwind s regs).1.blocks = (Block.unwind s regs f.blocks f.stack).blocks := rfl
  rw [hblocks] at hb
  rcases Block.unwind_cases hs f.blocks f.stack with
    ⟨-, -, hnil, -⟩ | ⟨above, a, below, hsplit, -, -, htakes⟩
  · rw [hnil] at hb
    cases hb
  · have hsub : a :: below ⊆ f.blocks := hsplit ▸ List.subset_append_right above _
    generalize Block.unwind s regs f.blocks f.stack = u at hb htakes
    cases htakes with
    | repeats kind => exact .inl ⟨b, hsub hb, r, hkind, hexc⟩
    | exits kind => exact .inl ⟨b, hsub (List.mem_cons_of_mem _ hb), r, hkind, hexc⟩
    | handles kind signal fill =>
        rcases List.mem_cons.mp hb with rfl | hb
        · -- the block that has parked the signal
          cases hkind
          exact .inr ⟨r, fill ▸ rfl, hexc⟩
        · exact .inl ⟨b, hsub (List.mem_cons_of_mem _ hb), r, hkind, hexc⟩

/-- An instruction that succeeds makes no exception: it takes up one that waited, at most. -/
lemma Effect.keeps {i : Instruction} {f : Frame} {below : List Frame} {m m' : Machine}
    {s : Option Signal} (h : Effect i f below m m' s) (hf : m.frames = f :: below)
    (hm' : m'.Keeps exc) : m.Keeps exc := by
  -- all cases but that of a call, where the frames below stay
  have kept : ∀ {f' : Frame}, m'.frames = f' :: below → (f'.Keeps exc → f.Keeps exc) →
      (m'.registers.Keeps exc → m.Keeps exc) → m.Keeps exc := by
    intro f' hf' hfirst hregs
    rcases hm' with hr | hkeeps
    · exact hregs hr
    · rw [hf'] at hkeeps
      exact .inr (hf ▸ exists_keeps_cons hkeeps hfirst)
  -- the same for blocks that stay or are closed, with registers that stay
  have same : ∀ {f' : Frame}, m'.frames = f' :: below → f'.blocks ⊆ f.blocks →
      m'.registers = m.registers → m.Keeps exc := fun hf' hsub hregs =>
    kept hf' (fun h => h.of_subset hsub) fun hr => .inl (hregs ▸ hr)
  have hfirst : f ∈ m.frames := hf ▸ List.mem_cons_self
  cases h with
  | moved _ frames registers => exact same frames (List.Subset.refl _) registers
  | @opened block handler _ frames registers =>
      refine kept frames ?_ fun hr => .inl (registers ▸ hr)
      rintro ⟨b, hb, r, hkind, hexc⟩
      rcases List.mem_cons.mp hb with rfl | hb
      · cases block <;> cases hkind
      · exact ⟨b, hb, r, hkind, hexc⟩
  | closed blocks _ frames registers =>
      exact same frames (blocks ▸ List.subset_cons_self _ _) registers
  | finishing _ blocks _ frames registers =>
      refine kept frames ?_ fun hr => .inl (registers ▸ hr)
      rintro ⟨b, hb, r, hkind, hexc⟩
      rcases List.mem_cons.mp hb with rfl | hb
      · cases hkind
      · exact ⟨b, blocks ▸ List.mem_cons_of_mem _ hb, r, hkind, hexc⟩
  | dropped blocks frames registers =>
      exact same frames (blocks ▸ List.subset_cons_self _ _) registers
  | @resumed pending handler level rest blocks frames registers =>
      refine kept frames (fun h => h.of_subset (blocks ▸ List.subset_cons_self _ _)) ?_
      rintro ⟨r, hr, hexc⟩
      rw [registers] at hr
      cases pending with
      | raising waiting =>
          cases hr
          exact .inr ⟨f, hfirst, _, blocks ▸ List.mem_cons_self, _, rfl, hexc⟩
      | _ => exact .inl ⟨r, hr, hexc⟩
  | @called r locals callee g g' _ _ made _ frames registers =>
      obtain ⟨-, -, hblocks, -⟩ := Frame.make_ok made
      rcases hm' with hr | hkeeps
      · exact .inl (registers ▸ hr)
      · rw [frames, List.exists_mem_cons_iff] at hkeeps
        rcases hkeeps with hkeeps | hkeeps
        · exact absurd hkeeps (Frame.not_keeps_of_nil hblocks)
        · exact .inr (hf ▸ exists_keeps_cons hkeeps fun h =>
            h.of_subset (List.Subset.refl f.blocks))
  | returned _ frames registers =>
      refine kept frames (fun h => h.of_subset (List.Subset.refl _)) fun hr => ?_
      rw [registers] at hr
      exact .inl hr
  | reraised handled frames registers =>
      refine kept frames id ?_
      rintro ⟨r, hr, hexc⟩
      rw [registers] at hr
      cases hr
      exact .inr (hexc ▸ exists_keeps_of_handled handled)
  | broken frames registers => exact same frames (List.Subset.refl _) registers
  | continued _ frames registers => exact same frames (List.Subset.refl _) registers

namespace Moment

variable {x : Moment}

/-! ### Faults -/

/-- The fault that comes up at a moment: code that cannot be decoded, an instruction that fails, or
a signal that has left all loops of its frame. -/
def fault? : Moment → Option Fault
  | .stepping l =>
    match l.machine.frames with
    | [] => some (.internal .noActiveFrame)
    | f :: _ =>
      match l.code.code.decode f.ip with
      | .error e => some (.cause (.undecodable e))
      | .ok i =>
        match Exec.execute l.code i (l.fetched i) with
        | .error e _ => some e
        | .ok _ _ => none
  | .leaving _ .breaking => some (.cause (.outsideLoop "break"))
  | .leaving _ (.continuing _) => some (.cause (.outsideLoop "continue"))
  | _ => none

/-- The exception is what a fault at this moment is raised as. -/
def Raises (x : Moment) (exc : ExcObject) : Prop :=
  ∃ e p h, x.fault? = some e ∧ (e.raisedAt p h).1.exc = exc

/-- The exception is under way, or waits, or is the result of the run. -/
def Keeps (x : Moment) (exc : ExcObject) : Prop :=
  x.machine.Keeps exc ∨ ∃ m r, x = .ended m (.error (.propagated r)) ∧ r.exc = exc

lemma raises_of_fault {e : Fault} (h : x.fault? = some e) (p : Place) (g : Heap) :
    x.Raises (e.raisedAt p g).1.exc :=
  ⟨e, p, g, h, rfl⟩

/-- What an instruction leaves comes from before it, or from its fault. -/
lemma keeps_stepping {l : Loop} {f : Frame} {below : List Frame} (hin : l.InFrame f below)
    (h : (next (.stepping l)).machine.Keeps exc) :
    (stepping l).Keeps exc ∨ (stepping l).Raises exc := by
  have hbefore : (∃ g ∈ f :: below, g.Keeps exc) → (stepping l).Keeps exc := fun hkeeps =>
    .inl (.inr (hin.frames.symm ▸ hkeeps))
  cases hd : l.code.code.decode f.ip with
  | error d =>
      have hfault : (stepping l).fault? = some (.cause (.undecodable d)) := by
        simp only [fault?, hin.frames, hd]
      rw [next_stepping_undecodable hin.frames hd, machine] at h
      rcases h.of_capture with rfl | hkeeps
      · exact .inr (raises_of_fault hfault _ _)
      · exact .inl (.inl (.inr hkeeps))
  | ok i =>
      have hfetched := hin.frames_fetched i
      rw [machine_next_stepping hin (hin.code ▸ hd), Machine.dispatch] at h
      cases hrun : Exec.execute l.code i (l.fetched i) with
      | error e m' =>
          have hfault : (stepping l).fault? = some e := by
            simp only [fault?, hin.frames, hd, hrun]
          obtain ⟨⟨n, hn⟩, -, -⟩ := Exec.execute_failures _ _ _ _ _ hrun _ _ hfetched
          rw [hrun] at h
          rcases h.of_capture with rfl | hkeeps
          · exact .inr (raises_of_fault hfault _ _)
          · rw [hn] at hkeeps
            exact .inl (hbefore (exists_keeps_cons hkeeps fun h =>
              h.of_subset (List.Subset.refl _)))
      | ok s m' =>
          rw [hrun] at h
          rcases (Exec.execute_effect hfetched hrun).keeps hfetched h with hregs | hkeeps
          · exact .inl (.inl (.inl hregs))
          · rw [hfetched] at hkeeps
            exact .inl (hbefore (exists_keeps_cons hkeeps fun h =>
              h.of_subset (List.Subset.refl _)))

/-- A signal that is offered makes no exception. -/
lemma keeps_offering {l : Loop} {s : Signal} {f : Frame} {below : List Frame}
    (hin : l.InFrame f below) (hs : s.Carried l.machine.registers)
    (h : (next (.offering l s)).machine.Keeps exc) : (offering l s).Keeps exc := by
  obtain ⟨m', hf', hregs, hcases⟩ := Machine.unwind_cases hin.frames s
  have hmachine : (next (.offering l s)).machine = m' := by
    rcases hcases with ⟨-, hu⟩ | ⟨-, hu⟩
    · rw [next_offering_escaped hu, machine]
    · rw [next_offering_taken hu, machine_resume]
  rw [hmachine] at h
  rcases h with ⟨r, hr, hexc⟩ | hkeeps
  · -- the registers are as they were, or empty
    rw [hregs] at hr
    by_cases hout : (f.unwind s l.machine.registers).2.2 = .escaped
    · rw [(f.unwind_registers hs).1 hout] at hr
      exact .inl (.inl ⟨r, hr, hexc⟩)
    · rw [(f.unwind_registers hs).2 hout] at hr
      cases hr
  · rw [hf', List.exists_mem_cons_iff] at hkeeps
    rcases hkeeps with hkeeps | ⟨g, hg, hkeeps⟩
    · rcases hkeeps.of_unwind hs with hkeeps | hregs
      · exact .inl (.inr ⟨f, hin.frames ▸ List.mem_cons_self, hkeeps⟩)
      · exact .inl (.inl hregs)
    · exact .inl (.inr ⟨g, hin.frames ▸ List.mem_cons_of_mem f hg, hkeeps⟩)

/-- The exception that a frame ends with was under way, or is that of a signal which has left all
loops. -/
lemma keeps_of_ending {m : Machine} {s : Signal} {f : Frame} {r : Raised}
    (h : m.Ending f s (.error (.propagated r))) :
    (leaving m s).Keeps r.exc ∨ (leaving m s).Raises r.exc := by
  generalize hresult : Except.error (Fault.propagated r) = result at h
  cases h with
  | returned _ => cases hresult
  | raised raised =>
      cases hresult
      exact .inl (.inl (.inl ⟨r, raised, rfl⟩))
  | breaking =>
      cases hresult
      exact .inr (raises_of_fault (e := .cause (.outsideLoop "break")) rfl _ _)
  | continuing target =>
      cases hresult
      exact .inr (raises_of_fault (e := .cause (.outsideLoop "continue")) rfl _ _)

lemma keeps_leaving {m : Machine} {s : Signal} {f : Frame} {below : List Frame}
    (hf : m.frames = f :: below) (hs : s.Carried m.registers)
    (h : (next (.leaving m s)).Keeps exc) : (leaving m s).Keeps exc ∨ (leaving m s).Raises exc := by
  have hbelow := Machine.frames_popFrame hf s
  obtain ⟨⟨m', result⟩, hpop⟩ : ∃ r, m.popFrame s = r := ⟨_, rfl⟩
  replace hbelow : m'.frames = below := by rwa [hpop] at hbelow
  obtain ⟨hregs, hending⟩ := Machine.popFrame_ending hf hs hpop
  have hempty : ¬ m'.registers.Keeps exc := hregs ▸ Registers.not_keeps_empty
  have hbefore : (∃ g ∈ below, g.Keeps exc) → (leaving m s).Keeps exc := fun ⟨g, hg, hkeeps⟩ =>
    .inl (.inr ⟨g, hf ▸ List.mem_cons_of_mem f hg, hkeeps⟩)
  cases below with
  | nil =>
      rw [next_leaving_last hpop hbelow] at h
      rcases h with (hr | ⟨g, hg, -⟩) | ⟨m₁, r, hended, rfl⟩
      · exact absurd hr hempty
      · rw [machine, hbelow] at hg
        cases hg
      · cases hended
        exact keeps_of_ending hending
  | cons g rest =>
      cases result with
      | ok v =>
          rw [next_leaving_ok hpop hbelow] at h
          rcases h with hkeeps | ⟨m₁, r, hended, -⟩
          · rw [machine_enter] at hkeeps
            rcases hkeeps with hr | hkeeps
            · exact absurd hr hempty
            · rw [Machine.frames_withTop hbelow] at hkeeps
              exact .inl (hbefore (exists_keeps_cons hkeeps fun h =>
                h.of_subset (List.Subset.refl _)))
          · rw [Loop.enter_of_cons (Machine.frames_withTop hbelow _)] at hended
            cases hended
      | error e =>
          rw [next_leaving_error hpop hbelow] at h
          rcases h with hkeeps | ⟨m₁, r, hended, -⟩
          · obtain ⟨r, rfl⟩ : ∃ r, e = .propagated r := hending.propagated
            rw [machine] at hkeeps
            rcases hkeeps.of_capture with rfl | hkeeps
            · -- the caller gets the same instance
              have hexc : (Fault.raisedAt (.propagated r) g.place m'.heap).1.exc = r.exc := rfl
              rw [hexc]
              exact keeps_of_ending hending
            · exact .inl (hbefore (hbelow ▸ hkeeps))
          · cases hended

/-- **A moment makes no exception** but by a fault. -/
theorem Reachable.keeps_next (h : Reachable x) (hkeeps : x.next.Keeps exc) :
    x.Keeps exc ∨ x.Raises exc := by
  have hcurrent := h.current
  have hfit := h.fit
  have htransition := h.transition
  cases x with
  | stepping l =>
      obtain ⟨f, below, hin⟩ := hcurrent
      rcases hkeeps with hkeeps | ⟨m, r, hended, -⟩
      · exact keeps_stepping hin hkeeps
      · rw [hended] at htransition
        cases htransition
  | offering l s =>
      obtain ⟨f, below, hin⟩ := hcurrent
      rcases hkeeps with hkeeps | ⟨m, r, hended, -⟩
      · exact .inl (keeps_offering hin hfit hkeeps)
      · rw [hended] at htransition
        cases htransition
  | leaving m s =>
      obtain ⟨f, below, hf⟩ := hcurrent
      exact keeps_leaving hf hfit hkeeps
  | ended m result => exact .inl hkeeps

/-- A run starts with no exception. -/
lemma not_keeps_start (m : Machine) (code : CodeObject) (globals locals : Option (Ref .namespace)) :
    ¬ (ofTurn (m.start code globals locals)).Keeps exc := by
  rcases start_cases m code globals locals with
    ⟨l, f, hstart, hin, hregs, h, h', hmake⟩ | ⟨m', c, hstart, hf, hregs⟩
  · obtain ⟨-, -, hblocks, -⟩ := Frame.make_ok hmake
    rw [hstart, ofTurn]
    rintro ((hr | ⟨g, hg, hkeeps⟩) | ⟨m', r, hended, -⟩)
    · exact Registers.not_keeps_empty (hregs ▸ hr)
    · rw [machine, hin.frames, List.mem_singleton] at hg
      exact Frame.not_keeps_of_nil hblocks (hg ▸ hkeeps)
    · cases hended
  · rw [hstart, ofTurn]
    rintro ((hr | ⟨g, hg, -⟩) | ⟨m', r, hended, -⟩)
    · exact Registers.not_keeps_empty (hregs ▸ hr)
    · rw [machine, hf] at hg
      cases hg
    · cases hended

/-- **Every exception of a run** is that of a fault at an earlier moment. -/
theorem exists_raises (m : Machine) (code : CodeObject) (globals locals : Option (Ref .namespace))
    {k : Nat} (h : (next^[k] (ofTurn (m.start code globals locals))).Keeps exc) :
    ∃ j < k, (next^[j] (ofTurn (m.start code globals locals))).Raises exc := by
  induction k with
  | zero => exact absurd h (not_keeps_start m code globals locals)
  | succ k ih =>
      rw [Function.iterate_succ_apply'] at h
      rcases (reachable_iterate (.start m code globals locals) k).keeps_next h with hkeeps | hraises
      · obtain ⟨j, hj, hraises⟩ := ih hkeeps
        exact ⟨j, by omega, hraises⟩
      · exact ⟨k, by omega, hraises⟩

/-- A run that has started and fails ends with an exception. -/
lemma propagated_of_ended {t : Turn} {l : Loop} {m : Machine} {e : Fault} {k : Nat}
    (hreach : Reachable (ofTurn t)) (ht : t = .running l)
    (h : next^[k] (ofTurn t) = .ended m (.error e)) : ∃ r, e = .propagated r := by
  induction k with
  | zero =>
      subst ht
      cases h
  | succ k ih =>
      have hx := reachable_iterate hreach k
      rw [Function.iterate_succ_apply'] at h
      generalize hcurrent : next^[k] (ofTurn t) = x at hx h ih
      have htransition := hx.transition
      rw [h] at htransition
      cases htransition with
      | finished frames popped _ =>
          exact (Machine.popFrame_ending frames hx.fit popped).2.propagated
      | ended => exact ih rfl

/-- **An exception that a run fails with** is that of a fault. -/
theorem exists_raises_of_runCode {m m' : Machine} {code : CodeObject}
    {globals locals : Option (Ref .namespace)} {l : Loop} {fuel : Nat} {r : Raised}
    (hstart : m.start code globals locals = .running l)
    (h : m.runCode fuel code globals locals = some (m', .error r)) :
    ∃ k, (next^[k] (ofTurn (m.start code globals locals))).Raises r.exc := by
  rw [Machine.runCode] at h
  cases hrun : Loop.run fuel (m.start code globals locals) with
  | none =>
      rw [hrun] at h
      cases h
  | some ended =>
      obtain ⟨m₁, result⟩ := ended
      obtain ⟨k, hk⟩ := run_eq_some_iff.mp ⟨fuel, hrun⟩
      rw [hrun] at h
      cases result with
      | ok v => cases h
      | error e =>
          obtain ⟨r', rfl⟩ := propagated_of_ended (.start m code globals locals) hstart hk
          cases h
          obtain ⟨j, -, hraises⟩ :=
            exists_raises m code globals locals (.inr ⟨m', r, hk, rfl⟩)
          exact ⟨j, hraises⟩

end Moment

end StackVM
