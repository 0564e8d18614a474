/-
How exceptions propagate. A fault is raised in the frame where it arises. It goes from frame to
frame, each of which it leaves, until it comes to one that has an except or a finally block, or
to the host. On its way it keeps its instance, it collects the places of the calls it comes out
of, and no instruction is executed.

* `Frame.Guarded`: a frame has an except or a finally block;
* `Moment.CaughtBy`, `Moment.Escapes`: an exception comes to such a frame, or to the host;
* `Moment.Leaves`: what becomes of an exception that leaves a frame;
* `Frame.Calling`: a frame waits for the end of a call;
* `exceptions_propagate`: what becomes of every fault in a run.
-/
import StackVM.Proofs.Faults

namespace StackVM

/-! ### Frames that handle exceptions -/

/-- The frame has an except or a finally block. -/
def Frame.Guarded (f : Frame) : Prop :=
  ∃ b ∈ f.blocks, b.kind = .except ∨ b.kind = .finally

instance (kind : BlockKind) : Decidable (kind = .except ∨ kind = .finally) :=
  match kind with
  | .except => isTrue (.inl rfl)
  | .finally => isTrue (.inr rfl)
  | .loop => isFalse (by rintro (h | h) <;> cases h)
  | .cleanup _ => isFalse (by rintro (h | h) <;> cases h)

instance (f : Frame) : Decidable f.Guarded :=
  inferInstanceAs (Decidable (∃ b ∈ f.blocks, b.kind = .except ∨ b.kind = .finally))

/-- Except and finally blocks are those that take exceptions. -/
lemma BlockKind.accepts_raising_iff (kind : BlockKind) :
    kind.Accepts .raising ↔ kind = .except ∨ kind = .finally := by
  cases kind with
  | loop => exact ⟨fun h => absurd rfl h.2, by rintro (h | h) <;> cases h⟩
  | except => exact ⟨fun _ => .inl rfl, fun _ => rfl⟩
  | «finally» => exact ⟨fun _ => .inr rfl, fun _ => trivial⟩
  | cleanup pending => exact ⟨False.elim, by rintro (h | h) <;> cases h⟩

/-- An except or finally block parks an exception, and goes to its handler; an except block
gives the handler the instance. -/
lemma Block.offer_raising {b : Block} (hb : b.kind = .except ∨ b.kind = .finally)
    (below : List Block) (stack : List Value) (r : Raised) (next : List Value → Unwinding) :
    (b.offer below .raising stack { raised := some r } next).blocks =
        ⟨.cleanup (.raising r), b.handler, (Frame.cut stack b.level).length⟩ :: below ∧
      (b.offer below .raising stack { raised := some r } next).target = some b.handler ∧
      (b.kind = .except → (b.offer below .raising stack { raised := some r } next).stack =
        .exception r.exc :: Frame.cut stack b.level) := by
  obtain ⟨kind, handler, level⟩ := b
  rcases hb with h | h
  · obtain rfl : kind = .except := h
    exact ⟨rfl, rfl, fun _ => rfl⟩
  · obtain rfl : kind = .finally := h
    exact ⟨rfl, rfl, nofun⟩

namespace Frame

variable {f : Frame} {r : Raised}

/-- The registers during the propagation of an exception. -/
lemma carried_raised (r : Raised) : Signal.raising.Carried { raised := some r } :=
  ⟨⟨r, rfl⟩, rfl⟩

/-- A frame that is not guarded lets an exception escape. -/
lemma unwind_of_not_guarded (hf : ¬ f.Guarded) (r : Raised) :
    (f.unwind .raising { raised := some r }).2 = ({ raised := some r }, .escaped) := by
  rcases Block.unwind_cases (carried_raised r) f.blocks f.stack with
    ⟨-, hout, -, hregs⟩ | ⟨above, b, below, hblocks, -, hb, -⟩
  · exact Prod.ext hregs hout
  · have hmem : b ∈ f.blocks := hblocks ▸ List.mem_append_right above List.mem_cons_self
    exact absurd ⟨b, hmem, b.kind.accepts_raising_iff.mp hb⟩ hf

/-- The innermost except or finally block of a frame takes an exception. It waits in a cleanup
block in its place, control is at the handler, and an except block gives the handler the
instance. -/
lemma unwind_of_guarded (hf : f.Guarded) (r : Raised) :
    (f.unwind .raising { raised := some r }).2.2 ≠ .escaped ∧
      ∃ above b below level, f.blocks = above ++ b :: below ∧
        (∀ a ∈ above, ¬ (a.kind = .except ∨ a.kind = .finally)) ∧
        (b.kind = .except ∨ b.kind = .finally) ∧
        (f.unwind .raising { raised := some r }).1.blocks =
          ⟨.cleanup (.raising r), b.handler, level⟩ :: below ∧
        (f.unwind .raising { raised := some r }).1.ip = b.handler ∧
        (b.kind = .except →
          (f.unwind .raising { raised := some r }).1.stack.head? = some (.exception r.exc)) := by
  rcases Block.unwind_cases (carried_raised r) f.blocks f.stack with
    ⟨hall, -⟩ | ⟨above, b, below, hblocks, habove, hb, htakes⟩
  · obtain ⟨b, hmem, hkind⟩ := hf
    exact absurd (b.kind.accepts_raising_iff.mpr hkind) (hall b hmem)
  · have hpass := Block.unwind_append { raised := some r } habove (b :: below) f.stack
    rw [← hblocks, Block.unwind] at hpass
    have hkind := b.kind.accepts_raising_iff.mp hb
    obtain ⟨hblocks', htarget, hstack⟩ := Block.offer_raising hkind below
      (Block.cutAll f.stack above) r (Block.unwind .raising { raised := some r } below)
    rw [← hpass] at hblocks' htarget hstack
    refine ⟨htakes.unwound_ne, above, b, below, _, hblocks, ?_, hkind, hblocks', ?_, ?_⟩
    · intro a ha h
      exact habove a ha (a.kind.accepts_raising_iff.mpr h)
    · exact congrArg (Option.getD · f.ip) htarget
    · intro hexcept
      exact congrArg List.head? (hstack hexcept)

end Frame

/-! ### The way of an exception -/

namespace Moment

/-- From the moment `x` on no instruction is executed until an exception has come to the frame
`g`, which has the frames `rest` below it. Its innermost except or finally block takes the
exception: this waits in a cleanup block in its place, with its instance and its traceback, and
control is at the handler. -/
inductive CaughtBy (x : Moment) (exc : ExcObject) (traceback : List Place) (g : Frame)
    (rest : List Frame) : Prop where
  | intro {n : Nat} {l : Loop} {g' : Frame} {r : Raised} {b : Block} {above below : List Block}
      {level : Nat} (arrival : next^[n] x = .stepping l)
      (silent : ∀ k < n, ∀ l', next^[k] x ≠ .stepping l')
      (frames : l.machine.frames = g' :: rest) (same : g.Continues g')
      (blocks : g.blocks = above ++ b :: below)
      (innermost : ∀ a ∈ above, ¬ (a.kind = .except ∨ a.kind = .finally))
      (kind : b.kind = .except ∨ b.kind = .finally)
      (blocks' : g'.blocks = ⟨.cleanup (.raising r), b.handler, level⟩ :: below)
      (handler : g'.ip = b.handler)
      (operand : b.kind = .except → g'.stack.head? = some (.exception exc))
      (exc_eq : r.exc = exc) (traceback_eq : r.traceback = traceback)

/-- From the moment `x` on no instruction is executed until the run has ended with an
exception. -/
inductive Escapes (x : Moment) (exc : ExcObject) (traceback : List Place) : Prop where
  | intro {n : Nat} {m : Machine} {r : Raised}
      (arrival : next^[n] x = .ended m (.error (.propagated r)))
      (silent : ∀ k < n, ∀ l, next^[k] x ≠ .stepping l) (frames : m.frames = [])
      (exc_eq : r.exc = exc) (traceback_eq : r.traceback = traceback)

/-- What becomes of an exception that leaves a frame which the frames `callers` have called.
The innermost guarded one of them catches it, or it escapes from all of them. The places of the
calls that it comes out of are added to its traceback. -/
structure Leaves (x : Moment) (r : Raised) (callers : List Frame) : Prop where
  caught : ∀ passed g rest, callers = passed ++ g :: rest → (∀ a ∈ passed, ¬ a.Guarded) →
    g.Guarded →
      x.CaughtBy r.exc (r.traceback ++ (passed ++ [g]).map Frame.place) g rest
  escapes : (∀ a ∈ callers, ¬ a.Guarded) →
    x.Escapes r.exc (r.traceback ++ callers.map Frame.place)

variable {x y : Moment} {exc : ExcObject} {traceback : List Place} {g : Frame}
  {rest : List Frame}

lemma offering_ne_stepping (l : Loop) (s : Signal) (l' : Loop) :
    Moment.offering l s ≠ .stepping l' := by
  intro h
  cases h

lemma leaving_ne_stepping (m : Machine) (s : Signal) (l : Loop) :
    Moment.leaving m s ≠ .stepping l := by
  intro h
  cases h

/-- The moments of a run that is silent from its second one on. -/
lemma silent_of_next (hx : ∀ l, x ≠ .stepping l) {n : Nat}
    (hsilent : ∀ k < n, ∀ l, next^[k] x.next ≠ .stepping l) :
    ∀ k < n + 1, ∀ l, next^[k] x ≠ .stepping l := by
  intro k hk
  cases k with
  | zero => exact hx
  | succ k =>
      rw [Function.iterate_succ_apply]
      exact hsilent k (Nat.lt_of_succ_lt_succ hk)

lemma CaughtBy.of_next (h : x.next.CaughtBy exc traceback g rest) (hx : ∀ l, x ≠ .stepping l) :
    x.CaughtBy exc traceback g rest := by
  obtain ⟨arrival, silent, frames, same, blocks, innermost, kind, blocks', handler, operand,
    exc_eq, traceback_eq⟩ := h
  rw [← Function.iterate_succ_apply] at arrival
  exact .intro arrival (silent_of_next hx silent) frames same blocks innermost kind blocks' handler
    operand exc_eq traceback_eq

lemma Escapes.of_next (h : x.next.Escapes exc traceback) (hx : ∀ l, x ≠ .stepping l) :
    x.Escapes exc traceback := by
  obtain ⟨arrival, silent, frames, exc_eq, traceback_eq⟩ := h
  rw [← Function.iterate_succ_apply] at arrival
  exact .intro arrival (silent_of_next hx silent) frames exc_eq traceback_eq

lemma Leaves.of_next {r : Raised} {callers : List Frame} (h : x.next.Leaves r callers)
    (hx : ∀ l, x ≠ .stepping l) : x.Leaves r callers :=
  ⟨fun passed g rest hsplit hpassed hg => (h.caught passed g rest hsplit hpassed hg).of_next hx,
    fun hall => (h.escapes hall).of_next hx⟩

/-- Only the blocks of a frame, its code and its variables matter. -/
lemma CaughtBy.congr {g₁ : Frame} (h : x.CaughtBy exc traceback g₁ rest)
    (hsame : g.Continues g₁) (hblocks : g₁.blocks = g.blocks) :
    x.CaughtBy exc traceback g rest := by
  obtain ⟨arrival, silent, frames, same, blocks, innermost, kind, blocks', handler, operand,
    exc_eq, traceback_eq⟩ := h
  exact .intro arrival silent frames (hsame.trans same) (hblocks ▸ blocks) innermost kind blocks'
    handler operand exc_eq traceback_eq

/-! ### Moments -/

variable {l : Loop} {m : Machine} {f : Frame} {below : List Frame} {r : Raised}

/-- A guarded frame catches an exception that is offered to it. -/
lemma caughtBy_of_guarded (hin : l.InFrame f below)
    (hregs : l.machine.registers = { raised := some r }) (hf : f.Guarded) :
    (Moment.offering l .raising).CaughtBy r.exc r.traceback f below := by
  obtain ⟨htaken, above, b, rest, level, hblocks, habove, hb, hblocks', hip, hstack⟩ :=
    Frame.unwind_of_guarded hf r
  have ht := transition_offering hin .raising
  generalize hy : next (.offering l .raising) = y at ht
  cases ht with
  | taken inside _ inside' _ =>
      obtain ⟨rfl, rfl⟩ := List.cons.inj (hin.frames.symm.trans inside.frames)
      have hframes := inside'.frames
      rw [hregs] at hframes
      refine .intro (n := 1) hy ?_ hframes ⟨rfl, rfl, rfl, rfl, rfl⟩ hblocks habove hb hblocks' hip
        hstack rfl rfl
      intro k hk l'
      obtain rfl : k = 0 := by omega
      exact offering_ne_stepping l .raising l'
  | escaped inside unwound _ _ =>
      obtain ⟨rfl, rfl⟩ := List.cons.inj (hin.frames.symm.trans inside.frames)
      rw [hregs] at unwound
      exact absurd unwound htaken

/-- A frame that is not guarded is about to end when an exception is offered to it. -/
lemma next_offering_of_not_guarded (hin : l.InFrame f below)
    (hregs : l.machine.registers = { raised := some r }) (hf : ¬ f.Guarded) :
    ∃ m f', next (.offering l .raising) = .leaving m .raising ∧ m.frames = f' :: below ∧
      m.registers = { raised := some r } := by
  have hescapes := Frame.unwind_of_not_guarded hf r
  have ht := transition_offering hin .raising
  generalize hy : next (.offering l .raising) = y at ht
  cases ht with
  | taken inside unwound _ _ =>
      obtain ⟨rfl, rfl⟩ := List.cons.inj (hin.frames.symm.trans inside.frames)
      rw [hregs, hescapes] at unwound
      exact absurd rfl unwound
  | escaped inside _ frames registers =>
      obtain ⟨rfl, rfl⟩ := List.cons.inj (hin.frames.symm.trans inside.frames)
      rw [hregs, hescapes] at registers
      exact ⟨_, _, rfl, frames, registers⟩

/-- An exception that leaves the last frame ends the run. -/
lemma next_leaving_raising_last (h : Reachable (.leaving m .raising)) (hf : m.frames = [f])
    (hregs : m.registers = { raised := some r }) :
    ∃ m', next (.leaving m .raising) = .ended m' (.error (.propagated r)) ∧ m'.frames = [] := by
  have hcarried : Signal.Carried m.registers .raising := h.fit
  have ht := h.transition
  generalize hy : next (.leaving m .raising) = y at ht
  cases ht with
  | returned frames _ _ _ =>
      rw [hf] at frames
      cases frames
  | raised frames _ _ _ =>
      rw [hf] at frames
      cases frames
  | finished frames popped frames' =>
      obtain ⟨-, hending⟩ := Machine.popFrame_ending frames hcarried popped
      cases hending with
      | raised hraised =>
          rw [hregs] at hraised
          cases hraised
          exact ⟨_, rfl, frames'⟩

/-- An exception that leaves a frame is raised in the frame that called it. -/
lemma next_leaving_raising_callee (h : Reachable (.leaving m .raising))
    (hf : m.frames = f :: g :: rest) (hregs : m.registers = { raised := some r }) :
    ∃ l, next (.leaving m .raising) = .offering l .raising ∧ l.InFrame g rest ∧
      l.machine.registers = { raised := some (r.addCaller g.place) } := by
  rcases next_leaving_callee h hf with ⟨v, l, hending, -⟩ | ⟨r', l, hending, hnext, hin, hregs', -⟩
  · cases hending
  · cases hending with
    | raised hraised =>
        rw [hregs] at hraised
        cases hraised
        exact ⟨l, hnext, hin, hregs'⟩

/-- **An exception that leaves a frame** goes on to the frames that have called it. -/
lemma leaves_of_leaving (h : Reachable (.leaving m .raising)) (hf : m.frames = f :: below)
    (hregs : m.registers = { raised := some r }) : (Moment.leaving m .raising).Leaves r below := by
  induction below generalizing m f r with
  | nil =>
      obtain ⟨m', hnext, hframes⟩ := next_leaving_raising_last h hf hregs
      refine ⟨?_, fun _ => ?_⟩
      · intro passed g rest hsplit
        cases passed <;> cases hsplit
      · refine .of_next (.intro (n := 0) hnext ?_ hframes rfl ?_) (leaving_ne_stepping m _)
        · intro k hk
          exact absurd hk (Nat.not_lt_zero k)
        · rw [List.map_nil, List.append_nil]
  | cons g rest ih =>
      obtain ⟨l, hnext, hin, hregs'⟩ := next_leaving_raising_callee h hf hregs
      have hreach : Reachable (.offering l .raising) := hnext ▸ h.next
      have htraceback : (r.addCaller g.place).traceback = r.traceback ++ [g.place] :=
        r.traceback_addCaller g.place
      by_cases hg : g.Guarded
      · -- the frame that called catches it
        have hcaught := caughtBy_of_guarded hin hregs' hg
        refine ⟨?_, fun hall => absurd hg (hall g List.mem_cons_self)⟩
        intro passed g' rest' hsplit hpassed hg'
        cases passed with
        | nil =>
            cases hsplit
            rw [htraceback, ← hnext] at hcaught
            exact hcaught.of_next (leaving_ne_stepping m _)
        | cons a passed =>
            cases hsplit
            exact absurd hg (hpassed g List.mem_cons_self)
      · -- it leaves the frame that called, too
        obtain ⟨m', f', hleaving, hf', hregs''⟩ := next_offering_of_not_guarded hin hregs' hg
        have hleaves := ih (hleaving ▸ hreach.next) hf' hregs''
        rw [← hleaving] at hleaves
        have hoffering := hleaves.of_next (offering_ne_stepping l _)
        rw [← hnext] at hoffering
        obtain ⟨caught, escapes⟩ := hoffering.of_next (leaving_ne_stepping m _)
        rw [htraceback] at caught escapes
        refine ⟨?_, ?_⟩
        · intro passed g' rest' hsplit hpassed hg'
          cases passed with
          | nil =>
              cases hsplit
              exact absurd hg' hg
          | cons a passed =>
              cases hsplit
              have := caught passed g' rest' rfl (List.forall_mem_cons.mp hpassed).2 hg'
              rw [List.append_assoc] at this
              exact this
        · intro hall
          have := escapes (List.forall_mem_cons.mp hall).2
          rw [List.append_assoc] at this
          exact this

/-- An exception that is offered to the frame in which it is raised. -/
lemma caughtBy_or_leaves (h : Reachable (.offering l .raising)) (hin : l.InFrame f below)
    (hregs : l.machine.registers = { raised := some r }) :
    (f.Guarded → (Moment.offering l .raising).CaughtBy r.exc r.traceback f below) ∧
      (¬ f.Guarded → (Moment.offering l .raising).Leaves r below) := by
  refine ⟨caughtBy_of_guarded hin hregs, fun hf => ?_⟩
  obtain ⟨m, f', hleaving, hf', hregs'⟩ := next_offering_of_not_guarded hin hregs hf
  have hleaves := leaves_of_leaving (hleaving ▸ h.next) hf' hregs'
  rw [← hleaving] at hleaves
  exact hleaves.of_next (offering_ne_stepping l _)

/-! ### Calls under way -/

end Moment

/-- The frame waits for the end of a call: the instruction it has executed last is a call, and
it goes on with what follows that. -/
def Frame.Calling (f : Frame) : Prop :=
  ∃ i, f.code.code.decode f.offset = .ok i ∧ i.opcode = some .callFunction ∧
    i.offset = f.offset ∧ i.next = f.ip

namespace Moment

/-- All frames but the current one wait for the end of a call. -/
def CallersWait (x : Moment) : Prop :=
  ∀ g ∈ x.frames.tail, g.Calling

lemma callersWait_of_cons {x : Moment} {f : Frame} {below : List Frame}
    (hf : x.frames = f :: below) (hbelow : ∀ g ∈ below, g.Calling) : x.CallersWait := by
  rw [CallersWait, hf]
  exact hbelow

lemma CallersWait.cons {x : Moment} (hx : x.CallersWait) {f : Frame} {below : List Frame}
    (hf : x.frames = f :: below) : ∀ g ∈ below, g.Calling := by
  rw [CallersWait, hf] at hx
  exact hx

lemma Transition.callersWait {x y : Moment} (h : Transition x y) (hx : x.CallersWait) :
    y.CallersWait := by
  cases h with
  | undecodable inside _ frames _ =>
      exact callersWait_of_cons frames (hx.cons inside.frames)
  | failed inside _ inside' _ =>
      exact callersWait_of_cons inside'.frames (hx.cons inside.frames)
  | signalled inside _ effect _ =>
      rcases effect.frames_cases with ⟨f', hf', -⟩ | ⟨hs, -⟩
      · exact callersWait_of_cons hf' (hx.cons inside.frames)
      · cases hs
  | executed inside decoded effect _ =>
      rcases effect.frames_cases with ⟨f', hf', -⟩ | ⟨-, hop, r, locals, callee, g, g', -, -, hf'⟩
      · exact callersWait_of_cons hf' (hx.cons inside.frames)
      · -- the frame that calls is the first of the callers
        have hoffset := (Code.decode_decoded decoded).offset
        refine callersWait_of_cons hf' (List.forall_mem_cons.mpr ⟨?_, hx.cons inside.frames⟩)
        exact ⟨_, (congrArg _ hoffset).trans decoded, hop, rfl, rfl⟩
  | taken inside _ inside' _ =>
      exact callersWait_of_cons inside'.frames (hx.cons inside.frames)
  | escaped inside _ frames _ =>
      exact callersWait_of_cons frames (hx.cons inside.frames)
  | returned frames _ inside' _ =>
      exact callersWait_of_cons inside'.frames (List.forall_mem_cons.mp (hx.cons frames)).2
  | raised frames _ inside' _ =>
      exact callersWait_of_cons inside'.frames (List.forall_mem_cons.mp (hx.cons frames)).2
  | @finished _ m' _ _ result _ _ frames' =>
      have hnil : (Moment.ended m' result).frames = [] := frames'
      rw [CallersWait, hnil]
      exact List.forall_mem_nil _
  | ended => exact hx

/-- At every moment of a run the frames below the current one wait for the end of a call. -/
lemma Reachable.callersWait {x : Moment} (h : Reachable x) : x.CallersWait := by
  induction h with
  | start m code globals locals =>
      rcases start_cases m code globals locals with ⟨l, f, ht, hin, -⟩ | ⟨m', c, ht, hf, -⟩
      · rw [ht]
        exact callersWait_of_cons (x := .stepping l) hin.frames (List.forall_mem_nil _)
      · have hnil : (Moment.ended m' (.error (.cause c))).frames = [] := hf
        rw [ht, CallersWait, ofTurn, hnil]
        exact List.forall_mem_nil _
  | next h ih => exact h.transition.callersWait ih

/-! ### Faults -/

variable {l : Loop} {f : Frame} {below : List Frame}

/-- The fault of an instruction starts its traceback. -/
lemma traceback_raisedAt {e : Fault} (he : e.OfInstruction) (p : Place) (h : Heap) :
    (e.raisedAt p h).1.traceback = [p] := by
  cases e with
  | propagated r => exact he.elim
  | cause c => rfl
  | thrown exc => rfl
  | internal k => rfl

/-- The fault of an instruction is offered to the blocks of its frame. -/
lemma next_stepping_failed {i : Instruction} {e : Fault} {m' : Machine}
    (h : Reachable (.stepping l)) (hf : l.machine.frames = f :: below)
    (hd : f.code.code.decode f.ip = .ok i)
    (hx : Exec.execute l.code i (l.fetched i) = .error e m') :
    ∃ l' stack, next (.stepping l) = .offering l' .raising ∧
      l'.InFrame { f.fetched i with stack } below ∧
      l'.machine.registers =
        { raised := some (e.raisedAt ⟨f.code.code.name, i.offset⟩ m'.heap).1 } := by
  obtain ⟨g, rest, hin⟩ := h.current
  obtain ⟨rfl, rfl⟩ := List.cons.inj (hf.symm.trans hin.frames)
  have hempty : (l.fetched i).registers = {} := h.fit
  obtain ⟨⟨k, hk⟩, hregs, -⟩ :=
    Exec.execute_failures _ _ _ _ _ hx _ _ (hin.frames_fetched i)
  refine ⟨⟨m'.capture e ⟨l.code.code.name, i.offset⟩, l.code, l.depth⟩, _, ?_,
    ⟨hk, hin.code, hin.depth⟩, ?_⟩
  · rw [next_stepping_decoded hf (hin.code ▸ hd), Machine.dispatch, hx]
  · rw [Machine.registers_capture, hregs, hempty, hin.code]

/-- **The fault of an instruction** comes to the blocks of its own frame, if that has one for
exceptions, and leaves it if not. -/
lemma fault_propagates {i : Instruction} {e : Fault} {m' : Machine}
    (h : Reachable (.stepping l)) (hf : l.machine.frames = f :: below)
    (hd : f.code.code.decode f.ip = .ok i)
    (hx : Exec.execute l.code i (l.fetched i) = .error e m') {r : Raised}
    (hr : r = (e.raisedAt ⟨f.code.code.name, i.offset⟩ m'.heap).1) :
    (f.Guarded → (next (.stepping l)).CaughtBy r.exc r.traceback f below) ∧
      (¬ f.Guarded → (next (.stepping l)).Leaves r below) := by
  obtain ⟨l', stack, hnext, hin, hregs⟩ := next_stepping_failed h hf hd hx
  rw [← hr] at hregs
  rw [hnext]
  obtain ⟨hcaught, hleaves⟩ := caughtBy_or_leaves (hnext ▸ h.next) hin hregs
  exact ⟨fun hg => (hcaught hg).congr ⟨rfl, rfl, rfl, rfl, rfl⟩ rfl, hleaves⟩

/-- **A frame whose code cannot be decoded** is left, whatever blocks it has. -/
lemma undecodable_propagates {e : DecodeError} (h : Reachable (.stepping l))
    (hf : l.machine.frames = f :: below) (hd : f.code.code.decode f.ip = .error e) :
    (next (.stepping l)).Leaves
      (Fault.raisedAt (.cause (.undecodable e)) ⟨f.code.code.name, f.ip⟩ l.machine.heap).1
      below := by
  obtain ⟨g, rest, hin⟩ := h.current
  obtain ⟨rfl, rfl⟩ := List.cons.inj (hf.symm.trans hin.frames)
  have hempty : l.machine.registers = {} := h.fit
  have hnext := next_stepping_undecodable hf (hin.code ▸ hd)
  have hreach := h.next
  rw [hnext] at hreach ⊢
  rw [hin.code] at hreach ⊢
  refine leaves_of_leaving hreach hf ?_
  rw [Machine.registers_capture, hempty]

/-- An exception that escapes from all frames is the result of the run. -/
lemma Escapes.runCode {m : Machine} {code : CodeObject} {globals locals : Option (Ref .namespace)}
    {n : Nat} {exc : ExcObject} {traceback : List Place}
    (h : (next^[n] (ofTurn (m.start code globals locals))).Escapes exc traceback) :
    ∃ fuel m' r, m.runCode fuel code globals locals = some (m', .error r) ∧ m'.frames = [] ∧
      r.exc = exc ∧ r.traceback = traceback := by
  obtain ⟨arrival, -, frames, exc_eq, traceback_eq⟩ := h
  rw [← Function.iterate_add_apply] at arrival
  obtain ⟨fuel, hrun⟩ := run_eq_some_iff.mpr ⟨_, arrival⟩
  refine ⟨fuel, _, _, ?_, frames, exc_eq, traceback_eq⟩
  rw [Machine.runCode, hrun]
  rfl

end Moment

/-- **Exceptions propagate.** Let the frame `f` with the frames `below` it be about to execute an
instruction in a run of `code`. The frames below wait for the ends of calls, and their places are
those of the call instructions.

If the instruction fails, the fault is raised as an exception whose traceback is the place of
the instruction; the fault of a throw is the instance thrown. If `f` has an except or a finally
block, the innermost one takes the exception, else it leaves `f`. A frame whose code cannot be
decoded is left in any case. What leaves a frame is caught by the innermost guarded frame below,
or by none: then it is the result of the run. -/
theorem exceptions_propagate {m : Machine} {code : CodeObject}
    {globals locals : Option (Ref .namespace)} {n : Nat} {l : Loop} {f : Frame}
    {below : List Frame}
    (hrun : Moment.next^[n] (.ofTurn (m.start code globals locals)) = .stepping l)
    (hframes : l.machine.frames = f :: below) :
    (∀ g ∈ below, g.Calling) ∧
    (∀ i e m', f.code.code.decode f.ip = .ok i →
      Exec.execute l.code i (l.fetched i) = .error e m' →
      ∃ r, r = (e.raisedAt ⟨f.code.code.name, i.offset⟩ m'.heap).1 ∧
        (∀ exc, e = .thrown exc → r.exc = exc) ∧
        r.traceback = [⟨f.code.code.name, i.offset⟩] ∧
        (f.Guarded → (Moment.next (.stepping l)).CaughtBy r.exc r.traceback f below) ∧
        (¬ f.Guarded → (Moment.next (.stepping l)).Leaves r below)) ∧
    (∀ e, f.code.code.decode f.ip = .error e →
      ∃ r, r = (Fault.raisedAt (.cause (.undecodable e)) ⟨f.code.code.name, f.ip⟩
          l.machine.heap).1 ∧
        r.traceback = [⟨f.code.code.name, f.ip⟩] ∧ (Moment.next (.stepping l)).Leaves r below) ∧
    ∀ exc traceback, (Moment.next (.stepping l)).Escapes exc traceback →
      ∃ fuel m' r, m.runCode fuel code globals locals = some (m', .error r) ∧ m'.frames = [] ∧
        r.exc = exc ∧ r.traceback = traceback := by
  have hreach : Moment.Reachable (.stepping l) :=
    hrun ▸ Moment.reachable_iterate (.start m code globals locals) n
  refine ⟨hreach.callersWait.cons hframes, ?_, ?_, ?_⟩
  · intro i e m' hd hx
    have he := hreach.fault_ofInstruction hframes hd hx
    refine ⟨_, rfl, ?_, Moment.traceback_raisedAt he _ _,
      Moment.fault_propagates hreach hframes hd hx rfl⟩
    rintro exc rfl
    rfl
  · intro e hd
    exact ⟨_, rfl, rfl, Moment.undecodable_propagates hreach hframes hd⟩
  · intro exc traceback hescapes
    rw [← hrun, ← Function.iterate_succ_apply' Moment.next] at hescapes
    exact hescapes.runCode

/-- A function has no code, and the except block of its caller takes the exception. A program
pops an operand that it does not have, and its run ends with the exception. -/
theorem callee_exception_is_caught_by_caller :
    let code : CodeObject :=
      ⟨default, { Code.empty "f" with
        bytecode := #[121, 10, 0, 100, 0, 0, 132, 0, 0, 131, 0, 0, 1, 9]
        consts := #[.code (Code.empty "g")] }⟩
    let x := Moment.ofTurn (Machine.start { builtins := ⟨0⟩ } code none none)
    let popping : CodeObject := ⟨default, { Code.empty "h" with bytecode := #[9, 1] }⟩
    let m : Machine := { builtins := ⟨0⟩ }
    let y := Moment.ofTurn (m.start popping none none)
    (∃ l callee caller e exc, Moment.next^[4] x = .stepping l ∧
      l.machine.frames = [callee, caller] ∧ callee.code.code.decode callee.ip = .error e ∧
      caller.Guarded ∧ caller.Calling ∧
      (Moment.next (.stepping l)).CaughtBy exc [⟨"g", 0⟩, ⟨"f", 9⟩] caller []) ∧
    ∃ l f i e m', Moment.next^[1] y = .stepping l ∧ l.machine.frames = [f] ∧
      f.code.code.decode f.ip = .ok i ∧ Exec.execute l.code i (l.fetched i) = .error e m' ∧
      ¬ f.Guarded ∧
      ∃ fuel m' r, m.runCode fuel popping none none = some (m', .error r) ∧ m'.frames = [] ∧
        r.traceback = [⟨"h", 1⟩] := by
  intro code x popping m y
  refine ⟨?_, ?_⟩
  · have hmoment : (∃ l, Moment.next^[4] x = .stepping l) ∧
        (Moment.next^[4] x).frames.map (fun f => (f.place, f.ip, decide f.Guarded)) =
          [(⟨"g", 0⟩, 0, false), (⟨"f", 9⟩, 12, true)] ∧
        (Moment.next^[4] x).frames.head?.all (fun f => !(f.code.code.decode f.ip).isOk) := by
      clear y
      decide +kernel +revert
    obtain ⟨⟨l, hl⟩, hframes, hundecodable⟩ := hmoment
    rw [hl] at hframes hundecodable
    obtain ⟨callee, callers, hf, hcallee, hcallers⟩ := List.map_eq_cons_iff.mp hframes
    obtain ⟨caller, rest, rfl, hcaller, hrest⟩ := List.map_eq_cons_iff.mp hcallers
    obtain rfl := List.map_eq_nil_iff.mp hrest
    obtain ⟨hcallee, hip, -⟩ : callee.place = ⟨"g", 0⟩ ∧ callee.ip = 0 ∧ _ := by
      simpa only [Prod.mk.injEq] using hcallee
    obtain ⟨hcaller, -, hguarded⟩ : caller.place = ⟨"f", 9⟩ ∧ caller.ip = 12 ∧ caller.Guarded := by
      simpa only [Prod.mk.injEq, decide_eq_true_eq] using hcaller
    obtain ⟨e, he⟩ : ∃ e, callee.code.code.decode callee.ip = .error e := by
      have hf' : (Moment.stepping l).frames = [callee, caller] := hf
      rw [hf'] at hundecodable
      cases hd : callee.code.code.decode callee.ip with
      | error e => exact ⟨e, rfl⟩
      | ok i =>
          rw [List.head?_cons, Option.all_some, hd] at hundecodable
          cases hundecodable
    obtain ⟨hcalling, -, hfault, -⟩ := exceptions_propagate hl hf
    obtain ⟨r, -, htraceback, hleaves⟩ := hfault e he
    have hcaught := hleaves.caught [] caller [] rfl nofun hguarded
    have hname : callee.code.code.name = "g" := congrArg Place.code hcallee
    rw [htraceback, List.nil_append, List.map_singleton, hcaller, hip, hname] at hcaught
    exact ⟨l, callee, caller, e, r.exc, hl, hf, he, hguarded,
      hcalling caller (List.mem_singleton_self caller), hcaught⟩
  · obtain ⟨l, f, i, m', hl, hf, hd, hx, hp, hblocks⟩ :
        ∃ l f i m', Moment.next^[1] y = .stepping l ∧ l.machine.frames = [f] ∧
          f.code.code.decode f.ip = .ok i ∧
          Exec.execute l.code i (l.fetched i) = .error (.internal .stackUnderflow) m' ∧
          (f.code.code.name = "h" ∧ i.offset = 1) ∧ f.blocks = [] :=
      ⟨_, _, _, _, by cbv, rfl, by cbv, by cbv, ⟨rfl, rfl⟩, rfl⟩
    have hopen : ¬ f.Guarded := by
      rintro ⟨b, hb, -⟩
      rw [hblocks] at hb
      cases hb
    obtain ⟨-, hfault, -, hescapes⟩ := exceptions_propagate hl hf
    obtain ⟨r, -, -, htraceback, -, hleaves⟩ := hfault i _ m' hd hx
    obtain ⟨fuel, m₁, r', hrun, hframes, -, htraceback'⟩ :=
      hescapes _ _ ((hleaves hopen).escapes nofun)
    rw [htraceback, hp.1, hp.2] at htraceback'
    exact ⟨l, f, i, _, m', hl, hf, hd, hx, hopen, fuel, m₁, r', hrun, hframes, htraceback'⟩

end StackVM
