/-
Frames stay in the bounds of their code. Whatever the bytes of a code object are, a frame
that runs it is never at an offset beyond its stream, none of its blocks leads out of the
stream, and it has one cell for each variable that needs one.

* `Frame.InBounds`: the bounds of a frame;
* `Block.unwind_inBounds`, `Effect.inBounds`: unwinding and instructions keep to them;
* `Moment.InBounds`: the bounds of all frames and of the signal under way;
* `frames_stay_in_bounds`: what that says of runs.
-/
import StackVM.Proofs.CallNesting
import StackVM.Proofs.Decoding

namespace StackVM

/-! ### Bounds -/

/-- A block in a stream of `size` bytes: its handler and the target of a continue that waits
in it are in the stream. -/
structure Block.InBounds (size : Nat) (b : Block) : Prop where
  handler : b.handler < size
  parked : ∀ target, b.kind = .cleanup (.continuing target) → target < size

/-- A signal in a stream of `size` bytes: where a loop goes on is in the stream. -/
def Signal.InBounds (size : Nat) (s : Signal) : Prop :=
  ∀ target, s = .continuing target → target < size

/-- The bounds of a frame. -/
structure Frame.InBounds (f : Frame) : Prop where
  ip : f.ip ≤ f.code.code.bytecode.size
  blocks : ∀ b ∈ f.blocks, b.InBounds f.code.code.bytecode.size
  cells : f.cells.length = f.code.code.cellCount

/-- A block that parks a signal in bounds is in bounds. -/
lemma Block.inBounds_cleanup {size handler level : Nat} {pending : Pending}
    (hhandler : handler < size)
    (hpending : ∀ s, pending.signal = some s → s.InBounds size) :
    Block.InBounds size ⟨.cleanup pending, handler, level⟩ := by
  refine ⟨hhandler, ?_⟩
  rintro target ⟨⟩
  exact hpending _ rfl target rfl

/-- What waits in a block that is in bounds is a signal in bounds. -/
lemma Block.InBounds.pending {size handler level : Nat} {pending : Pending}
    (h : Block.InBounds size ⟨.cleanup pending, handler, level⟩) {s : Signal}
    (hs : pending.signal = some s) : s.InBounds size := by
  rintro target rfl
  cases pending with
  | continuing _ =>
      cases hs
      exact h.parked _ rfl
  | _ => cases hs

/-! ### Unwinding -/

/-- What a block parks is the signal that it takes. -/
lemma Block.signal_park? {kind : BlockKind} {s : Signal} {regs : Registers} {p : Parked}
    (h : Block.park? kind s regs = some p) : p.pending.signal = some s := by
  cases kind with
  | loop => cases s <;> cases h
  | cleanup _ => cases s <;> cases h
  | except =>
      cases s with
      | raising =>
          obtain ⟨r, -, rfl⟩ := Option.map_eq_some_iff.mp h
          rfl
      | _ => cases h
  | «finally» =>
      cases s with
      | raising =>
          obtain ⟨r, -, rfl⟩ := Option.map_eq_some_iff.mp h
          rfl
      | _ =>
          cases h
          rfl

/-- Unwinding keeps blocks that are in bounds, and goes on in bounds. -/
lemma Block.unwind_inBounds {size : Nat} {s : Signal} (hs : s.InBounds size) (regs : Registers)
    {blocks : List Block} (hblocks : ∀ b ∈ blocks, b.InBounds size) (stack : List Value) :
    (∀ b ∈ (unwind s regs blocks stack).blocks, b.InBounds size) ∧
      ∀ t, (unwind s regs blocks stack).target = some t → t < size := by
  induction blocks generalizing stack with
  | nil => exact ⟨nofun, nofun⟩
  | cons b below ih =>
      obtain ⟨hb, hbelow⟩ := List.forall_mem_cons.mp hblocks
      have hrest := fun stack => ih hbelow stack
      rw [unwind]
      by_cases hloop : b.kind = .loop
      · obtain ⟨kind, handler, level⟩ := b
        obtain rfl : kind = .loop := hloop
        cases s with
        | returning => exact hrest _
        | raising => exact hrest _
        | breaking =>
            refine ⟨hbelow, ?_⟩
            rintro t ⟨⟩
            exact hb.handler
        | continuing target =>
            refine ⟨hblocks, ?_⟩
            rintro t ⟨⟩
            exact hs target rfl
      · rw [offer_of_ne_loop hloop]
        cases hp : park? b.kind s regs with
        | none => exact hrest _
        | some p =>
            have hpending : ∀ s', p.pending.signal = some s' → s'.InBounds size := by
              intro s' hs'
              rw [signal_park? hp] at hs'
              cases hs'
              exact hs
            refine ⟨List.forall_mem_cons.mpr ⟨inBounds_cleanup hb.handler hpending, hbelow⟩, ?_⟩
            rintro t ⟨⟩
            exact hb.handler

/-- A frame to which a signal is offered stays in bounds. -/
lemma Frame.InBounds.unwind {f : Frame} (hf : f.InBounds) {s : Signal}
    (hs : s.InBounds f.code.code.bytecode.size) (regs : Registers) :
    (f.unwind s regs).1.InBounds := by
  obtain ⟨hblocks, htarget⟩ := Block.unwind_inBounds hs regs hf.blocks f.stack
  refine ⟨?_, hblocks, hf.cells⟩
  show (Block.unwind s regs f.blocks f.stack).target.getD f.ip ≤ f.code.code.bytecode.size
  cases ht : (Block.unwind s regs f.blocks f.stack).target with
  | none => exact hf.ip
  | some t => exact Nat.le_of_lt (htarget t ht)

/-! ### Instructions -/

/-- A frame about to execute a decoded instruction is in bounds. -/
lemma Frame.InBounds.fetched {f : Frame} (hf : f.InBounds) {i : Instruction}
    (hi : i.Decoded f.code.code f.ip) : (f.fetched i).InBounds :=
  ⟨hi.next_le, hf.blocks, hf.cells⟩

/-- An instruction keeps frames in bounds, and asks for signals in bounds. -/
lemma Effect.inBounds {i : Instruction} {f : Frame} {below : List Frame} {m m' : Machine}
    {s : Option Signal} (h : Effect i f below m m' s) (hf : f.InBounds)
    (hbelow : ∀ g ∈ below, g.InBounds)
    (htarget : ∀ t, i.operand.target? = some t → t < f.code.code.bytecode.size) :
    (∀ g ∈ m'.frames, g.InBounds) ∧
      ∀ s', s = some s' → s'.InBounds f.code.code.bytecode.size := by
  have top : ∀ {f' : Frame}, m'.frames = f' :: below → f'.InBounds →
      ∀ g ∈ m'.frames, g.InBounds := by
    intro f' hframes hf'
    rw [hframes]
    exact List.forall_mem_cons.mpr ⟨hf', hbelow⟩
  cases h with
  | moved offset frames _ =>
      refine ⟨top frames ⟨?_, hf.blocks, hf.cells⟩, nofun⟩
      rcases offset with rfl | ht
      · exact hf.ip
      · exact Nat.le_of_lt (htarget _ ht)
  | @opened block handler target frames _ =>
      refine ⟨top frames ⟨hf.ip, ?_, hf.cells⟩, nofun⟩
      refine List.forall_mem_cons.mpr ⟨⟨htarget _ target, ?_⟩, hf.blocks⟩
      intro t hkind
      cases block <;> cases hkind
  | closed blocks _ frames _ =>
      have hrest := hf.blocks
      rw [blocks] at hrest
      exact ⟨top frames ⟨hf.ip, (List.forall_mem_cons.mp hrest).2, hf.cells⟩, nofun⟩
  | finishing _ blocks _ frames _ =>
      have hrest := hf.blocks
      rw [blocks] at hrest
      obtain ⟨hb, hrest⟩ := List.forall_mem_cons.mp hrest
      refine ⟨top frames ⟨hf.ip, ?_, hf.cells⟩, nofun⟩
      exact List.forall_mem_cons.mpr ⟨Block.inBounds_cleanup hb.handler nofun, hrest⟩
  | dropped blocks frames _ =>
      have hrest := hf.blocks
      rw [blocks] at hrest
      exact ⟨top frames ⟨hf.ip, (List.forall_mem_cons.mp hrest).2, hf.cells⟩, nofun⟩
  | resumed blocks frames _ =>
      have hrest := hf.blocks
      rw [blocks] at hrest
      obtain ⟨hb, hrest⟩ := List.forall_mem_cons.mp hrest
      exact ⟨top frames ⟨hf.ip, hrest, hf.cells⟩, fun s' hs' => hb.pending hs'⟩
  | called _ _ made _ frames _ =>
      obtain ⟨hcode, -, hblocks, hip, hcells⟩ := Frame.make_ok made
      refine ⟨?_, nofun⟩
      rw [frames]
      refine List.forall_mem_cons.mpr ⟨⟨?_, ?_, ?_⟩,
        List.forall_mem_cons.mpr ⟨⟨hf.ip, hf.blocks, hf.cells⟩, hbelow⟩⟩
      · rw [hip]
        exact Nat.zero_le _
      · rw [hblocks]
        nofun
      · rw [hcells, hcode]
  | returned _ frames _ =>
      refine ⟨top frames ⟨hf.ip, hf.blocks, hf.cells⟩, ?_⟩
      rintro s' ⟨⟩
      nofun
  | reraised _ frames _ =>
      refine ⟨top frames hf, ?_⟩
      rintro s' ⟨⟩
      nofun
  | broken frames _ =>
      refine ⟨top frames hf, ?_⟩
      rintro s' ⟨⟩
      nofun
  | continued operand frames _ =>
      refine ⟨top frames hf, ?_⟩
      rintro s' ⟨⟩ _ ⟨⟩
      exact htarget _ operand

/-! ### Runs -/

namespace Moment

/-- All frames are in bounds, and the signal under way is so in the current frame. -/
structure InBounds (x : Moment) : Prop where
  frames : ∀ f ∈ x.frames, f.InBounds
  signal : ∀ s f below, x.signal? = some s → x.frames = f :: below →
    s.InBounds f.code.code.bytecode.size

/-- A moment whose current frame is `f`. -/
lemma inBounds_of_cons {x : Moment} {f : Frame} {below : List Frame}
    (hframes : x.frames = f :: below) (hf : f.InBounds) (hbelow : ∀ g ∈ below, g.InBounds)
    (hsignal : ∀ s, x.signal? = some s → s.InBounds f.code.code.bytecode.size) : x.InBounds := by
  refine ⟨?_, ?_⟩
  · rw [hframes]
    exact List.forall_mem_cons.mpr ⟨hf, hbelow⟩
  · intro s g rest hs hg
    rw [hframes] at hg
    cases hg
    exact hsignal s hs

/-- The current frame of a moment in bounds, and those below it. -/
lemma InBounds.cons {x : Moment} (hx : x.InBounds) {f : Frame} {below : List Frame}
    (hframes : x.frames = f :: below) : f.InBounds ∧ ∀ g ∈ below, g.InBounds := by
  have hall := hx.frames
  rw [hframes] at hall
  exact List.forall_mem_cons.mp hall

lemma Transition.inBounds {x y : Moment} (h : Transition x y) (hx : x.InBounds) : y.InBounds := by
  have raising : ∀ {size : Nat} (s : Signal), some .raising = some s → s.InBounds size := by
    rintro size s ⟨⟩
    nofun
  cases h with
  | undecodable inside _ frames _ =>
      obtain ⟨hf, hbelow⟩ := hx.cons inside.frames
      exact inBounds_of_cons frames hf hbelow raising
  | failed inside decoded inside' _ =>
      obtain ⟨hf, hbelow⟩ := hx.cons inside.frames
      have hfetched := hf.fetched (Code.decode_decoded decoded)
      exact inBounds_of_cons inside'.frames ⟨hfetched.ip, hf.blocks, hf.cells⟩ hbelow raising
  | @signalled l l' f _ below i s inside decoded effect _ =>
      obtain ⟨hf, hbelow⟩ := hx.cons inside.frames
      have hi := Code.decode_decoded decoded
      obtain ⟨hframes, hsignal⟩ := effect.inBounds (hf.fetched hi) hbelow fun t => hi.target_lt
      refine ⟨hframes, ?_⟩
      rintro s' g rest ⟨⟩ hg
      -- the frame that asks for the signal is still the current one
      have hcode : g.code = f.code := by
        rcases effect.frames_cases with ⟨f', hf', hcont⟩ | ⟨hnone, -⟩
        · obtain ⟨rfl, -⟩ := List.cons.inj (hg.symm.trans hf')
          exact hcont.code
        · cases hnone
      rw [hcode]
      exact hsignal s rfl
  | executed inside decoded effect _ =>
      obtain ⟨hf, hbelow⟩ := hx.cons inside.frames
      have hi := Code.decode_decoded decoded
      obtain ⟨hframes, -⟩ := effect.inBounds (hf.fetched hi) hbelow fun t => hi.target_lt
      exact ⟨hframes, nofun⟩
  | taken inside _ inside' _ =>
      obtain ⟨hf, hbelow⟩ := hx.cons inside.frames
      have hs := hx.signal _ _ _ rfl inside.frames
      exact inBounds_of_cons inside'.frames (hf.unwind hs _) hbelow nofun
  | escaped inside _ frames _ =>
      obtain ⟨hf, hbelow⟩ := hx.cons inside.frames
      have hs := hx.signal _ _ _ rfl inside.frames
      refine inBounds_of_cons frames (hf.unwind hs _) hbelow ?_
      rintro s ⟨⟩
      exact hs
  | returned frames _ inside' _ =>
      obtain ⟨hg, hbelow⟩ := List.forall_mem_cons.mp (hx.cons frames).2
      exact inBounds_of_cons inside'.frames ⟨hg.ip, hg.blocks, hg.cells⟩ hbelow nofun
  | raised frames _ inside' _ =>
      obtain ⟨hg, hbelow⟩ := List.forall_mem_cons.mp (hx.cons frames).2
      exact inBounds_of_cons inside'.frames hg hbelow raising
  | @finished _ m' _ _ result _ _ frames' =>
      have hnil : (Moment.ended m' result).frames = [] := frames'
      refine ⟨?_, nofun⟩
      rw [hnil]
      nofun
  | ended => exact hx

/-- At every moment of a run the frames are in bounds. -/
lemma Reachable.inBounds {x : Moment} (h : Reachable x) : x.InBounds := by
  induction h with
  | start m code globals locals =>
      rcases start_cases m code globals locals with
        ⟨l, f, ht, hin, -, _, _, hmake⟩ | ⟨m', c, ht, hf, -⟩
      · rw [ht]
        obtain ⟨hcode, -, hblocks, hip, hcells⟩ := Frame.make_ok hmake
        refine inBounds_of_cons (x := .stepping l) hin.frames ⟨?_, ?_, ?_⟩ nofun nofun
        · rw [hip]
          exact Nat.zero_le _
        · rw [hblocks]
          nofun
        · rw [hcells, hcode]
      · have hnil : (Moment.ended m' (.error (.cause c))).frames = [] := hf
        rw [ht]
        refine ⟨?_, nofun⟩
        rw [ofTurn, hnil]
        nofun
  | next h ih => exact h.transition.inBounds ih

end Moment

/-- **Frames stay in bounds.** At every moment of every run, whatever the bytes of the code
objects are, each active frame is at an offset of its code or at its end. The handlers of its
blocks are offsets of its code, and so is where a continue goes on that waits in one of them.
The frame has as many cells as its code asks for. -/
theorem frames_stay_in_bounds {x : Moment} (h : x.Reachable) {f : Frame} (hf : f ∈ x.frames) :
    f.ip ≤ f.code.code.bytecode.size ∧
    (∀ b ∈ f.blocks, b.handler < f.code.code.bytecode.size) ∧
    (∀ b ∈ f.blocks, ∀ target, b.kind = .cleanup (.continuing target) →
      target < f.code.code.bytecode.size) ∧
    f.cells.length = f.code.code.cellCount := by
  have hbounds := h.inBounds.frames f hf
  refine ⟨hbounds.ip, ?_, ?_, hbounds.cells⟩
  · intro b hb
    exact (hbounds.blocks b hb).handler
  · intro b hb
    exact (hbounds.blocks b hb).parked

/-- A loop goes on from the body of a finally block: the continue waits in a cleanup block
while the handler runs, above the block of the loop. -/
theorem waiting_continue_stays_in_bounds :
    let code : CodeObject :=
      ⟨default, { Code.empty "f" with
        bytecode := #[120, 7, 0, 122, 3, 0, 119, 3, 0, 88, 100, 0, 0, 83], consts := #[.none]
        cellvars := #["v"] }⟩
    let x := Moment.ofTurn (Machine.start { builtins := ⟨0⟩ } code none none)
    ∃ f, (Moment.next^[4] x).frames = [f] ∧
      f.blocks = [⟨.cleanup (.continuing 3), 9, 0⟩, ⟨.loop, 10, 0⟩] ∧
      f.code.code.bytecode.size = 14 ∧ f.ip ≤ 14 ∧ (∀ b ∈ f.blocks, b.handler < 14) ∧
      (∀ b ∈ f.blocks, ∀ target, b.kind = .cleanup (.continuing target) → target < 14) ∧
      f.cells.length = 1 := by
  intro code x
  have hreach : Moment.Reachable (Moment.next^[4] x) :=
    Moment.reachable_iterate (.start _ code none none) 4
  obtain ⟨f, hf, hblocks, hcode⟩ : ∃ f, (Moment.next^[4] x).frames = [f] ∧
      f.blocks = [⟨.cleanup (.continuing 3), 9, 0⟩, ⟨.loop, 10, 0⟩] ∧ f.code = code :=
    ⟨_, by cbv, rfl, rfl⟩
  have hbounds := frames_stay_in_bounds hreach (hf ▸ List.mem_singleton_self f)
  rw [hcode] at hbounds
  exact ⟨f, hf, hblocks, by rw [hcode]; rfl, hbounds⟩

end StackVM
