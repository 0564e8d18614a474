/-
Finally blocks are not skipped. A finally block of an active frame stays where it is until
its handler is to run, and then a cleanup block takes its place; a frame that ends has no
finally block left, unless its code could not be decoded.

* `Block.unwind_finally`, `Effect.finally_kept`: what unwinding and instructions do with a
  finally block;
* `Moment.FinallyStep`: what may become of one from one moment to the next;
* `finally_blocks_not_skipped`: what that says of runs.
-/
import StackVM.Proofs.CallNesting

namespace StackVM

/-! ### Unwinding -/

/-- Unwinding stops at a finally block at the latest. The block stays, or a cleanup block is
in its place and control is at the handler, with the signal waiting. -/
lemma Block.unwind_finally {s : Signal} {regs : Registers} (hs : s.Carried regs) {b : Block}
    (hb : b.kind = .finally) (above below : List Block) (stack : List Value) :
    (unwind s regs (above ++ b :: below) stack).unwound ≠ .escaped ∧
      ((∃ above', (unwind s regs (above ++ b :: below) stack).blocks = above' ++ b :: below) ∨
        ∃ pending level, pending.signal = some s ∧ pending.fill {} = regs ∧
          (unwind s regs (above ++ b :: below) stack).blocks =
            ⟨.cleanup pending, b.handler, level⟩ :: below ∧
          (unwind s regs (above ++ b :: below) stack).target = some b.handler) := by
  induction above generalizing stack with
  | nil =>
      rw [List.nil_append, unwind]
      rcases offer_cases hs b below stack (unwind s regs below) with ⟨hno, -⟩ | ⟨-, htakes⟩
      · rw [hb] at hno
        exact absurd trivial hno
      · refine ⟨htakes.unwound_ne, .inr ?_⟩
        generalize b.offer below s stack regs (unwind s regs below) = u at htakes
        cases htakes with
        | repeats kind =>
            rw [hb] at kind
            cases kind
        | exits kind =>
            rw [hb] at kind
            cases kind
        | handles _ signal fill => exact ⟨_, _, signal, fill, rfl, rfl⟩
  | cons a above ih =>
      rw [List.cons_append, unwind]
      rcases offer_cases hs a (above ++ b :: below) stack (unwind s regs (above ++ b :: below))
        with ⟨-, hpass⟩ | ⟨-, htakes⟩
      · rw [hpass]
        exact ih (Frame.cut stack a.level)
      · -- a block above takes the signal, and what is below it stays
        refine ⟨htakes.unwound_ne, .inl ?_⟩
        generalize a.offer (above ++ b :: below) s stack regs _ = u at htakes
        cases htakes with
        | repeats _ => exact ⟨a :: above, rfl⟩
        | exits _ => exact ⟨above, rfl⟩
        | handles _ _ _ => exact ⟨_ :: above, rfl⟩

/-! ### Instructions -/

/-- A finally block lies below any other block on top. -/
lemma Block.below_of_ne_finally {above below rest : List Block} {b c : Block}
    (h : above ++ b :: below = c :: rest) (hb : b.kind = .finally) (hc : c.kind ≠ .finally) :
    ∃ above', rest = above' ++ b :: below := by
  cases above with
  | nil =>
      cases h
      exact absurd hb hc
  | cons a above =>
      cases h
      exact ⟨above, rfl⟩

/-- An instruction leaves a finally block where it is, unless it closes it. -/
lemma Effect.finally_kept {i : Instruction} {f : Frame} {older : List Frame} {m m' : Machine}
    {s : Option Signal} (h : Effect i f older m m' s) {above below : List Block} {b : Block}
    (hblocks : f.blocks = above ++ b :: below) (hb : b.kind = .finally) :
    ∃ newer f', m'.frames = newer ++ f' :: older ∧
      ((∃ above', f'.blocks = above' ++ b :: below) ∨
        newer = [] ∧ i.opcode = some .popBlock ∧
          ∃ level, f'.blocks = ⟨.cleanup .none, b.handler, level⟩ :: below) := by
  cases h with
  | moved _ frames _ => exact ⟨[], _, frames, .inl ⟨above, hblocks⟩⟩
  | opened _ frames _ => exact ⟨[], _, frames, .inl ⟨_ :: above, congrArg _ hblocks⟩⟩
  | closed blocks kind frames _ =>
      have hrest := Block.below_of_ne_finally (hblocks.symm.trans blocks) hb kind
      exact ⟨[], _, frames, .inl hrest⟩
  | @finishing c rest opcode blocks _ frames _ =>
      rw [hblocks] at blocks
      cases above with
      | nil =>
          cases blocks
          exact ⟨[], _, frames, .inr ⟨rfl, opcode, _, rfl⟩⟩
      | cons a above =>
          cases blocks
          exact ⟨[], _, frames, .inl ⟨_ :: above, rfl⟩⟩
  | dropped blocks frames _ =>
      have hrest := Block.below_of_ne_finally (hblocks.symm.trans blocks) hb nofun
      exact ⟨[], _, frames, .inl hrest⟩
  | resumed blocks frames _ =>
      have hrest := Block.below_of_ne_finally (hblocks.symm.trans blocks) hb nofun
      exact ⟨[], _, frames, .inl hrest⟩
  | called _ _ _ _ frames _ => exact ⟨[_], _, frames, .inl ⟨above, hblocks⟩⟩
  | returned _ frames _ => exact ⟨[], _, frames, .inl ⟨above, hblocks⟩⟩
  | reraised _ frames _ => exact ⟨[], _, frames, .inl ⟨above, hblocks⟩⟩
  | broken frames _ => exact ⟨[], _, frames, .inl ⟨above, hblocks⟩⟩
  | continued _ frames _ => exact ⟨[], _, frames, .inl ⟨above, hblocks⟩⟩

/-! ### Moments -/

namespace Moment

/-- What may become of a finally block `b` with the blocks `below` it, in a frame `f` that
is `f'` at the moment after `x`. -/
inductive FinallyStep (x : Moment) (f f' : Frame) (b : Block) (below : List Block) : Prop where
  /-- It stays. -/
  | kept (above : List Block) (blocks : f'.blocks = above ++ b :: below)
  /-- A signal waits in its place while the handler runs. -/
  | taken {l : Loop} {s : Signal} {pending : Pending} {level : Nat} (offered : x = .offering l s)
      (current : l.machine.frames.head? = some f) (signal : pending.signal = some s)
      (payload : pending.fill {} = l.machine.registers)
      (blocks : f'.blocks = ⟨.cleanup pending, b.handler, level⟩ :: below)
      (handler : f'.ip = b.handler)
  /-- It is closed; nothing waits for the end of the handler. -/
  | closed {l : Loop} {i : Instruction} {level : Nat} (stepping : x = .stepping l)
      (current : l.machine.frames.head? = some f) (decoded : f.code.code.decode f.ip = .ok i)
      (opcode : i.opcode = some .popBlock)
      (blocks : f'.blocks = ⟨.cleanup .none, b.handler, level⟩ :: below)

variable {x y : Moment} {f : Frame} {newer older : List Frame} {above below : List Block}
  {b : Block}

/-- The finally blocks of the frames below the current one stay. -/
lemma Transition.finally_below (h : Transition x y) (hx : x.Current) {c : Frame}
    (hf : x.frames = c :: newer ++ f :: older) (hblocks : f.blocks = above ++ b :: below) :
    ∃ newer' f', y.frames = newer' ++ f' :: older ∧ FinallyStep x f f' b below := by
  cases h.frameStep hx with
  | goes before after _ =>
      rw [before] at hf
      cases hf
      exact ⟨_ :: newer, f, after, .kept above hblocks⟩
  | calls before after _ =>
      rw [before] at hf
      cases hf
      exact ⟨_ :: _ :: newer, f, after, .kept above hblocks⟩
  | ends _ before after _ blocks =>
      rw [before] at hf
      cases newer with
      | nil =>
          cases hf
          exact ⟨[], _, after, .kept above (blocks.trans hblocks)⟩
      | cons d ds =>
          cases hf
          exact ⟨_ :: ds, f, after, .kept above hblocks⟩
  | last _ before =>
      rw [before] at hf
      cases newer <;> cases hf
  | gone before =>
      rw [before] at hf
      cases hf

/-- An instruction of the current frame. -/
lemma finallyStep_of_effect {l : Loop} {i : Instruction} {m' : Machine} {s : Option Signal}
    (inside : l.InFrame f older) (decoded : f.code.code.decode f.ip = .ok i)
    (effect : Effect i (f.fetched i) older (l.fetched i) m' s)
    (hblocks : f.blocks = above ++ b :: below) (hb : b.kind = .finally) :
    ∃ newer' f', m'.frames = newer' ++ f' :: older ∧
      FinallyStep (.stepping l) f f' b below := by
  have hhead : l.machine.frames.head? = some f := congrArg List.head? inside.frames
  obtain ⟨newer', f', hf', ⟨above', hkept⟩ | ⟨-, hop, level, hclosed⟩⟩ :=
    effect.finally_kept hblocks hb
  · exact ⟨newer', f', hf', .kept above' hkept⟩
  · exact ⟨newer', f', hf', .closed rfl hhead decoded hop hclosed⟩

/-- A finally block of the current frame stays, or its handler runs next. -/
lemma Transition.finally_current (h : Transition x y) (hfit : x.registers.Fit x.signal?)
    (hf : x.frames = f :: older) (hlive : ¬ x.Ends older.length)
    (hblocks : f.blocks = above ++ b :: below) (hb : b.kind = .finally) :
    ∃ newer' f', y.frames = newer' ++ f' :: older ∧ FinallyStep x f f' b below := by
  have hhead : x.machine.frames.head? = some f := congrArg List.head? hf
  cases h with
  | undecodable inside _ frames _ =>
      obtain ⟨rfl, rfl⟩ := List.cons.inj (hf.symm.trans inside.frames)
      exact ⟨[], f, frames, .kept above hblocks⟩
  | failed inside _ inside' _ =>
      obtain ⟨rfl, rfl⟩ := List.cons.inj (hf.symm.trans inside.frames)
      exact ⟨[], _, inside'.frames, .kept above hblocks⟩
  | signalled inside decoded effect _ =>
      obtain ⟨rfl, rfl⟩ := List.cons.inj (hf.symm.trans inside.frames)
      exact finallyStep_of_effect inside decoded effect hblocks hb
  | executed inside decoded effect _ =>
      obtain ⟨rfl, rfl⟩ := List.cons.inj (hf.symm.trans inside.frames)
      exact finallyStep_of_effect inside decoded effect hblocks hb
  | taken inside _ inside' _ =>
      obtain ⟨rfl, rfl⟩ := List.cons.inj (hf.symm.trans inside.frames)
      obtain ⟨-, hcases⟩ := Block.unwind_finally hfit hb above below f.stack
      rw [← hblocks] at hcases
      rcases hcases with ⟨above', hkept⟩ | ⟨pending, level, hsignal, hfill, htaken, htarget⟩
      · exact ⟨[], _, inside'.frames, .kept above' hkept⟩
      · refine ⟨[], _, inside'.frames, .taken rfl hhead hsignal hfill htaken ?_⟩
        exact congrArg (Option.getD · f.ip) htarget
  | escaped inside unwound _ _ =>
      obtain ⟨rfl, rfl⟩ := List.cons.inj (hf.symm.trans inside.frames)
      obtain ⟨hstops, -⟩ := Block.unwind_finally hfit hb above below f.stack
      rw [← hblocks] at hstops
      exact absurd unwound hstops
  | returned _ _ _ _ =>
      exact absurd (ends_of_leaving ⟨_, _, rfl⟩ (congrArg List.length hf)) hlive
  | raised _ _ _ _ =>
      exact absurd (ends_of_leaving ⟨_, _, rfl⟩ (congrArg List.length hf)) hlive
  | finished _ _ _ =>
      exact absurd (ends_of_leaving ⟨_, _, rfl⟩ (congrArg List.length hf)) hlive
  | ended => exact ⟨[], f, hf, .kept above hblocks⟩

/-- A frame that is about to end has no block left, or its code could not be decoded. -/
lemma blocks_of_leaving {m : Machine} {s : Signal} (h : Reachable (.leaving m s))
    (hf : m.frames = f :: older) :
    f.blocks = [] ∨ ∃ l e, Reachable (.stepping l) ∧ next (.stepping l) = .leaving m s ∧
      l.machine.frames = f :: older ∧ f.code.code.decode f.ip = .error e := by
  generalize hy : Moment.leaving m s = y at h
  cases h with
  | start m₀ code globals locals =>
      rcases start_cases m₀ code globals locals with ⟨l, f, ht, -⟩ | ⟨m', e, ht, -⟩
      · rw [ht] at hy
        cases hy
      · rw [ht] at hy
        cases hy
  | @next x hx =>
      have htransition := hx.transition
      have hfit := hx.fit
      rw [← hy] at htransition
      cases htransition with
      | @undecodable l _ _ _ e _ inside decoded frames _ =>
          obtain ⟨rfl, rfl⟩ := List.cons.inj (hf.symm.trans frames)
          exact .inr ⟨l, e, hx, rfl, inside.frames, decoded⟩
      | @escaped _ _ g _ _ inside unwound frames _ =>
          obtain ⟨rfl, rfl⟩ := List.cons.inj (hf.symm.trans frames)
          rcases Block.unwind_cases hfit g.blocks g.stack with
            ⟨-, -, hempty, -⟩ | ⟨_, _, _, -, -, -, htakes⟩
          · exact .inl hempty
          · exact absurd unwound htakes.unwound_ne

end Moment

/-- Two splits of the frames at the same depth are the same. -/
lemma Frame.eq_of_split {newer newer' older : List Frame} {f f' : Frame}
    (h : newer ++ f :: older = newer' ++ f' :: older) : f = f' := by
  rw [List.append_cons, List.append_cons newer'] at h
  exact List.singleton_inj.mp (List.append_inj_right' (List.append_cancel_right h) rfl)

/-- **Finally blocks are not skipped.** From one moment of a run to the next, a finally block
of a frame that does not end stays where it is, or a cleanup block takes its place: with the
signal that was being unwound, and control at the handler; or with nothing waiting, when the
instruction that closes blocks has closed it. A frame that ends has no finally block, unless
it ends because its own code cannot be decoded. -/
theorem finally_blocks_not_skipped :
    (∀ (x : Moment) (f : Frame) (newer older : List Frame) (b : Block) (above below : List Block),
      x.Reachable → x.frames = newer ++ f :: older → ¬ x.Ends older.length →
      f.blocks = above ++ b :: below → b.kind = .finally →
        ∃ newer' f', x.next.frames = newer' ++ f' :: older ∧ f.Continues f' ∧
          x.FinallyStep f f' b below) ∧
    ∀ (m : Machine) (s : Signal) (f : Frame) (older : List Frame),
      Moment.Reachable (.leaving m s) → m.frames = f :: older →
        (∀ b ∈ f.blocks, b.kind ≠ .finally) ∨
          ∃ l e, Moment.Reachable (.stepping l) ∧ Moment.next (.stepping l) = .leaving m s ∧
            l.machine.frames = f :: older ∧ f.code.code.decode f.ip = .error e := by
  constructor
  · intro x f newer older b above below h hf hlive hblocks hb
    obtain ⟨newer₁, f₁, hf₁, hcont⟩ := h.transition.frames_persist h.current hf hlive
    obtain ⟨newer', f', hf', hstep⟩ :
        ∃ newer' f', x.next.frames = newer' ++ f' :: older ∧ x.FinallyStep f f' b below := by
      cases newer with
      | nil => exact h.transition.finally_current h.fit hf hlive hblocks hb
      | cons c newer => exact h.transition.finally_below h.current hf hblocks
    obtain rfl := Frame.eq_of_split (hf₁.symm.trans hf')
    exact ⟨newer', f₁, hf', hcont, hstep⟩
  · intro m s f older h hf
    rcases Moment.blocks_of_leaving h hf with hempty | hundecodable
    · left
      rw [hempty]
      nofun
    · exact .inr hundecodable

/-- A value is returned from the body of a finally block: the handler runs before the frame
ends, and when it ends no finally block is left. -/
theorem finally_block_of_return_not_skipped :
    let code : CodeObject :=
      ⟨default, { Code.empty "f" with
        bytecode := #[122, 4, 0, 100, 0, 0, 83, 88], consts := #[.none] }⟩
    let x := Moment.ofTurn (Machine.start { builtins := ⟨0⟩ } code none none)
    (∃ f, (Moment.next^[3] x).frames = [] ++ [f] ∧ ¬ (Moment.next^[3] x).Ends 0 ∧
      f.blocks = [] ++ [⟨.finally, 7, 0⟩] ∧
      ∃ newer' f', (Moment.next^[3] x).next.frames = newer' ++ [f'] ∧ f.Continues f' ∧
        (Moment.next^[3] x).FinallyStep f f' ⟨.finally, 7, 0⟩ []) ∧
    ∃ m f, Moment.next^[6] x = .leaving m .returning ∧ m.frames = [f] ∧
      ((∀ b ∈ f.blocks, b.kind ≠ .finally) ∨
        ∃ l e, Moment.Reachable (.stepping l) ∧ Moment.next (.stepping l) = .leaving m .returning ∧
          l.machine.frames = [f] ∧ f.code.code.decode f.ip = .error e) := by
  intro code x
  have hlive : ¬ (Moment.next^[3] x).Ends 0 := by decide +kernel +revert
  have reach (n : Nat) : Moment.Reachable (Moment.next^[n] x) :=
    Moment.reachable_iterate (.start _ code none none) n
  obtain ⟨f, hf, hblocks⟩ :
      ∃ f, (Moment.next^[3] x).frames = [] ++ [f] ∧ f.blocks = [] ++ [⟨.finally, 7, 0⟩] :=
    ⟨_, by cbv, rfl⟩
  obtain ⟨m, g, hm, hg⟩ : ∃ m g, Moment.next^[6] x = .leaving m .returning ∧ m.frames = [g] :=
    ⟨_, _, by cbv, rfl⟩
  obtain ⟨kept, ended⟩ := finally_blocks_not_skipped
  exact ⟨⟨f, hf, hlive, hblocks, kept _ f [] [] _ [] [] (reach 3) hf hlive hblocks rfl⟩,
    m, g, hm, hg, ended m .returning g [] (hm ▸ reach 6) hg⟩

end StackVM
