/-
Calls nest. One loop runs the instructions of all frames, yet a call behaves as if the
callee ran on its own: until the frame of the callee ends, the frames below it stay as the
call left them, and then the caller goes on from there.

* `Moment.Transition.frames_persist`: the frames below a frame stay as they are until it
  ends, for one moment;
* `Moment.iterate_frames_persist`: the same for a run;
* `calls_nest`: what that says of a call and its end.
-/
import StackVM.Proofs.Registers

namespace StackVM

/-! ### The frames below a frame -/

namespace Moment

variable {x y : Moment}

/-- **The frames below a frame** stay as they are until that frame ends. -/
lemma Transition.frames_persist (h : Transition x y) (hx : x.Current) {newer older : List Frame}
    {g : Frame} (hf : x.frames = newer ++ g :: older) (hlive : ¬ x.Ends older.length) :
    ∃ newer' g', y.frames = newer' ++ g' :: older ∧ g.Continues g' := by
  cases h.frameStep hx with
  | goes before after same =>
      rw [before] at hf
      cases newer with
      | nil =>
          cases hf
          exact ⟨[], _, after, same⟩
      | cons c cs =>
          cases hf
          exact ⟨_ :: cs, g, after, .refl g⟩
  | calls before after same =>
      rw [before] at hf
      cases newer with
      | nil =>
          cases hf
          exact ⟨[_], _, after, same⟩
      | cons c cs =>
          cases hf
          exact ⟨_ :: _ :: cs, g, after, .refl g⟩
  | ends leaving before after same _ =>
      cases newer with
      | nil => exact absurd (ends_of_leaving leaving (congrArg List.length hf)) hlive
      | cons c cs =>
          rw [before] at hf
          -- what called is either the frame in question or one above it
          cases cs with
          | nil =>
              cases hf
              exact ⟨[], _, after, same⟩
          | cons d ds =>
              cases hf
              exact ⟨_ :: ds, g, after, .refl g⟩
  | last leaving before =>
      cases newer with
      | nil => exact absurd (ends_of_leaving leaving (congrArg List.length hf)) hlive
      | cons c cs =>
          rw [before] at hf
          cases cs <;> cases hf
  | gone before =>
      rw [before] at hf
      cases newer <;> cases hf

/-- The frames below a frame stay as they are along a run, until that frame ends. -/
lemma iterate_frames_persist (h : Reachable x) {newer older : List Frame} {g : Frame}
    (hf : x.frames = newer ++ g :: older) (n : Nat)
    (hlive : ∀ k < n, ¬ (next^[k] x).Ends older.length) :
    ∃ newer' g', (next^[n] x).frames = newer' ++ g' :: older ∧ g.Continues g' := by
  induction n with
  | zero => exact ⟨newer, g, hf, .refl g⟩
  | succ n ih =>
      obtain ⟨newer₁, g₁, hf₁, hcont₁⟩ := ih fun k hk => hlive k (Nat.lt_succ_of_lt hk)
      have hreach := reachable_iterate h n
      obtain ⟨newer₂, g₂, hf₂, hcont₂⟩ :=
        hreach.transition.frames_persist hreach.current hf₁ (hlive n (Nat.lt_succ_self n))
      rw [Function.iterate_succ_apply']
      exact ⟨newer₂, g₂, hf₂, hcont₁.trans hcont₂⟩

end Moment

/-! ### Calls -/

/-- There are as many new cells as contents. -/
lemma Eval.length_newCells {contents : List (Option Value)} {h h' : Heap}
    {cells : List (Ref .cell)} (hcells : Eval.newCells contents h = .ok cells h') :
    cells.length = contents.length := by
  induction contents generalizing h cells with
  | nil =>
      cases hcells
      rfl
  | cons content contents ih =>
      obtain ⟨cell, h₁, -, hcells⟩ := bind_ok_iff.mp hcells
      obtain ⟨rest, h₂, hrest, hcells⟩ := bind_ok_iff.mp hcells
      cases hcells
      rw [List.length_cons, List.length_cons, ih hrest]

/-- A new frame is at the start of its code, and has a cell for each variable that needs
one. -/
lemma Frame.make_ok {code : CodeObject} {globals locals : Option (Ref .namespace)}
    {builtins : Ref .namespace} {closure : List (Ref .cell)} {h h' : Heap} {f : Frame}
    (hmake : Frame.make code globals locals builtins closure h = .ok f h') :
    f.code = code ∧ f.stack = [] ∧ f.blocks = [] ∧ f.ip = 0 ∧
      f.cells.length = code.code.cellCount := by
  rw [Frame.make.eq_def] at hmake
  extract_lets free rest at hmake
  have hrest : ∀ g h₁, rest g h₁ = .ok f h' →
      f.code = code ∧ f.stack = [] ∧ f.blocks = [] ∧ f.ip = 0 ∧
        f.cells.length = code.code.cellCount := by
    intro g h₁ hr
    obtain ⟨hp, h₂, -, hr⟩ := bind_ok_iff.mp hr
    obtain ⟨own, h₃, hown, hr⟩ := bind_ok_iff.mp hr
    obtain ⟨lacking, h₄, hlacking, hr⟩ := bind_ok_iff.mp hr
    cases hr
    refine ⟨rfl, rfl, rfl, rfl, ?_⟩
    -- the closure gives as many cells as it has, and the lacking ones make up the rest
    have hfree : free.length ≤ code.code.freevars.size := List.length_take_le _ _
    have hown' : own.length = code.code.cellvars.size := by
      rw [Eval.length_newCells hown, List.length_map, Array.length_toList]
    have hlacking' : lacking.length = code.code.freevars.size - free.length := by
      rw [Eval.length_newCells hlacking, List.length_replicate]
    rw [List.length_append, List.length_append, hown', hlacking', Code.cellCount]
    omega
  cases globals with
  | some g => exact hrest g h hmake
  | none =>
      obtain ⟨g, h₁, -, hmake⟩ := bind_ok_iff.mp hmake
      exact hrest g h₁ hmake

/-- A frame that ends without a value ends with an exception. -/
lemma Machine.Ending.propagated {m : Machine} {f : Frame} {s : Signal} {e : Fault}
    (h : m.Ending f s (.error e)) : ∃ r, e = .propagated r := by
  cases h with
  | raised _ => exact ⟨_, rfl⟩
  | breaking => exact ⟨_, rfl⟩
  | continuing target => exact ⟨_, rfl⟩

namespace Moment

/-- Only a call adds a frame. -/
lemma Transition.enters {l l' : Loop} (h : Transition (.stepping l) (.stepping l'))
    {f : Frame} {below : List Frame} (hf : l.machine.frames = f :: below)
    (henter : l'.machine.frames.length = l.machine.frames.length + 1) :
    ∃ i r callee, f.code.code.decode f.ip = .ok i ∧ i.opcode = some .callFunction ∧
      f.stack[Exec.argumentCount i.arg]? = some (.function r) ∧
      callee.code = (l.machine.heap.function r).code ∧ callee.stack = [] ∧ callee.blocks = [] ∧
      callee.ip = 0 ∧
      l'.machine.frames =
        callee :: { f.fetched i with stack := f.stack.drop (Exec.argumentCount i.arg + 1) } ::
          below := by
  cases h with
  | executed inside decoded effect _ =>
      rw [inside.frames] at hf
      cases hf
      rcases effect.frames_cases with
        ⟨f', hf', -⟩ | ⟨-, hop, r, locals, callee, g, g', hcallable, hmake, hf'⟩
      · rw [hf', inside.frames, List.length_cons, List.length_cons] at henter
        omega
      · obtain ⟨hcode, hstack, hblocks, hip, -⟩ := Frame.make_ok hmake
        exact ⟨_, r, callee, decoded, hop, hcallable, hcode, hstack, hblocks, hip, hf'⟩

/-- The frame that called goes on with the value, or has the exception raised at the call
and offered to its blocks. -/
lemma next_leaving_callee {m : Machine} {s : Signal} {callee saved : Frame} {below : List Frame}
    (h : Reachable (.leaving m s)) (hf : m.frames = callee :: saved :: below) :
    (∃ v l, m.Ending callee s (.ok v) ∧ next (.leaving m s) = .stepping l ∧
        l.InFrame (saved.push v) below) ∨
      ∃ r l, m.Ending callee s (.error (.propagated r)) ∧
        next (.leaving m s) = .offering l .raising ∧ l.InFrame saved below ∧
        l.machine.registers = { raised := some (r.addCaller saved.place) } ∧
        (next (.offering l .raising)).frames =
          (saved.unwind .raising l.machine.registers).1 :: below := by
  have hfit := h.fit
  have ht := h.transition
  generalize hy : next (.leaving m s) = y at ht
  cases ht with
  | returned frames popped inside' _ =>
      rw [hf] at frames
      cases frames
      obtain ⟨-, hending⟩ := Machine.popFrame_ending hf hfit popped
      exact .inl ⟨_, _, hending, rfl, inside'⟩
  | @raised _ _ l _ _ _ _ _ frames popped inside' registers =>
      rw [hf] at frames
      cases frames
      obtain ⟨hempty, hending⟩ := Machine.popFrame_ending hf hfit popped
      obtain ⟨r, rfl⟩ := hending.propagated
      refine .inr ⟨r, l, hending, rfl, inside', ?_, frames_next_offering inside' _⟩
      rw [registers, hempty]
      rfl
  | finished frames _ _ =>
      rw [hf] at frames
      cases frames

end Moment

/-- **Calls nest.** When a call in the frame `f` enters the frame of a function, the caller
and the frames below it stay exactly as the call has left them, with the callable and the
arguments popped, until the frame of the callee ends. If that ends with a value, the caller
goes on with the value pushed. Otherwise it goes on with the exception raised at the offset
of the call and offered to its blocks. -/
theorem calls_nest {l l' : Loop} {f : Frame} {below : List Frame}
    (h : Moment.Reachable (.stepping l)) (hf : l.machine.frames = f :: below)
    (hnext : Moment.next (.stepping l) = .stepping l')
    (henter : l'.machine.frames.length = l.machine.frames.length + 1) :
    ∃ i r callee saved, f.code.code.decode f.ip = .ok i ∧ i.opcode = some .callFunction ∧
      f.stack[Exec.argumentCount i.arg]? = some (.function r) ∧
      callee.code = (l.machine.heap.function r).code ∧ callee.stack = [] ∧ callee.blocks = [] ∧
      callee.ip = 0 ∧
      saved = { f with
        stack := f.stack.drop (Exec.argumentCount i.arg + 1), ip := i.next, offset := i.offset } ∧
      l'.machine.frames = callee :: saved :: below ∧
      ∀ n, (∀ k < n, ¬ (Moment.next^[k] (.stepping l')).Ends (below.length + 1)) →
        ∃ newer callee', callee.Continues callee' ∧
          (Moment.next^[n] (.stepping l')).frames = newer ++ callee' :: saved :: below ∧
          ∀ m s, Moment.next^[n] (.stepping l') = .leaving m s →
            m.frames.length = below.length + 2 →
            newer = [] ∧
            ((∃ v l'', m.Ending callee' s (.ok v) ∧ Moment.next (.leaving m s) = .stepping l'' ∧
                l''.InFrame (saved.push v) below) ∨
              ∃ r l'', m.Ending callee' s (.error (.propagated r)) ∧
                Moment.next (.leaving m s) = .offering l'' .raising ∧ l''.InFrame saved below ∧
                l''.machine.registers =
                  { raised := some (r.addCaller ⟨f.code.code.name, i.offset⟩) } ∧
                (Moment.next (.offering l'' .raising)).frames =
                  (saved.unwind .raising l''.machine.registers).1 :: below) := by
  have htransition := h.transition
  rw [hnext] at htransition
  obtain ⟨i, r, callee, hd, hop, hcallable, hcode, hstack, hblocks, hip, hf'⟩ :=
    htransition.enters hf henter
  refine ⟨i, r, callee, _, hd, hop, hcallable, hcode, hstack, hblocks, hip, rfl, hf', ?_⟩
  intro n hlive
  have hreach : Moment.Reachable (.stepping l') := hnext ▸ h.next
  have hinit : (Moment.stepping l').frames = [] ++ callee :: _ :: below := hf'
  obtain ⟨newer, callee', hfn, hcont⟩ := Moment.iterate_frames_persist hreach hinit n hlive
  refine ⟨newer, callee', hcont, hfn, ?_⟩
  intro m s hm hlength
  have hleaving : Moment.Reachable (.leaving m s) := hm ▸ Moment.reachable_iterate hreach n
  rw [hm] at hfn
  have hframes : m.frames = newer ++ callee' :: _ :: below := hfn
  have hnewer : newer = [] := by
    rw [hframes, List.length_append, List.length_cons, List.length_cons] at hlength
    exact List.length_eq_zero_iff.mp (by omega)
  rw [hnewer] at hframes
  exact ⟨hnewer, Moment.next_leaving_callee hleaving hframes⟩

/-- A program calls a function that returns a value: when the function is about to end, the
frame of the program is as the call has left it, and it goes on with the value pushed. -/
theorem call_of_function_nests :
    let code : CodeObject :=
      ⟨default, { Code.empty "f" with
        bytecode := #[100, 0, 0, 132, 0, 0, 131, 0, 0, 83]
        consts := #[.code
          { Code.empty "g" with bytecode := #[100, 0, 0, 83], consts := #[.none] }] }⟩
    let x := Moment.ofTurn (Machine.start { builtins := ⟨0⟩ } code none none)
    ∃ l l' f, Moment.next^[2] x = .stepping l ∧ l.machine.frames = [f] ∧
      Moment.next (.stepping l) = .stepping l' ∧
      l'.machine.frames.length = l.machine.frames.length + 1 ∧
      ∃ i saved callee m v l'', f.code.code.decode f.ip = .ok i ∧
        saved = { f with
          stack := f.stack.drop (Exec.argumentCount i.arg + 1), ip := i.next
          offset := i.offset } ∧
        Moment.next^[3] (.stepping l') = .leaving m .returning ∧ m.frames = [callee, saved] ∧
        m.registers.result = some v ∧ Moment.next (.leaving m .returning) = .stepping l'' ∧
        l''.InFrame (saved.push v) [] := by
  intro code x
  have hrun : (∃ l, Moment.next^[2] x = .stepping l) ∧ (Moment.next^[2] x).frames.length = 1 ∧
      (∃ l, Moment.next (Moment.next^[2] x) = .stepping l) ∧
      (Moment.next (Moment.next^[2] x)).frames.length = 2 ∧
      (∀ k < 3, ¬ (Moment.next^[k] (Moment.next (Moment.next^[2] x))).Ends 1) ∧
      (∃ m, Moment.next^[3] (Moment.next (Moment.next^[2] x)) = .leaving m .returning) ∧
      (Moment.next^[3] (Moment.next (Moment.next^[2] x))).Ends 1 := by
    decide +kernel +revert
  obtain ⟨⟨l, hl⟩, hlength, ⟨l', hnext⟩, henter, hlive, ⟨m, hm⟩, hends⟩ := hrun
  have hreach : Moment.Reachable (.stepping l) :=
    hl ▸ Moment.reachable_iterate (.start _ code none none) 2
  rw [hl] at hlength hnext henter hlive hm hends
  rw [hnext] at henter hlive hm hends
  rw [hm] at hends
  obtain ⟨f, hf⟩ := List.length_eq_one_iff.mp hlength
  have hcall : l'.machine.frames.length = l.machine.frames.length + 1 :=
    henter.trans (congrArg (· + 1) hlength.symm)
  obtain ⟨i, r, callee, saved, hd, -, -, -, -, -, -, hsaved, -, hnest⟩ :=
    calls_nest hreach hf hnext hcall
  obtain ⟨newer, callee', -, hframes, hend⟩ := hnest 3 hlive
  rw [hm] at hframes
  obtain ⟨rfl, ⟨v, l'', hending, hgo, hin⟩ | ⟨_, _, hending, -⟩⟩ := hend m .returning hm hends
  · cases hending with
    | returned hresult =>
        exact ⟨l, l', f, hl, hf, hnext, hcall, i, saved, callee', m, v, l'', hd, hsaved, hm,
          hframes, hresult, hgo, hin⟩
  · cases hending

end StackVM
