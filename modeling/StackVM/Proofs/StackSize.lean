/-
The stack size of straight-line code. While directives are assembled the depth of the operand
stack is followed from the declared effects, and its maximum becomes the stack size of the code
object. A program without jumps goes through its instructions in order, so that its operand stack
never grows beyond that size. This needs declared effects that are not below the actual ones, and
an argument that is clamped may declare too little.

* `Opcode.Honest`: the declared effect of an instruction is not below its effect;
* `Emission.depth`, `Emission.undeclared`: what instructions in a row declare, and what they do not;
* `Assembler.depth_le_maxDepth`: the declared depth never exceeds the greatest one;
* `Emission.StraightLine`: instructions without jumps, with a bound on their depth;
* `Frame.Stands`: a frame is about to go on with the rest of them;
* `Moment.Fits`, `Moment.Fits.next`: **one moment**; `Moment.Fits.iterate`: all of them;
* `straight_line_fits_stack_size`: **all runs**;
* `clamped_argument_exceeds_stack_size`: an argument that declares too little.
-/
import Mathlib
import StackVM.Proofs.Parameters
import StackVM.Proofs.RoundTrip
import StackVM.Proofs.StackEffects

namespace StackVM

/-! ### Declared effects -/

namespace Opcode

/-- The declared effect is not below the effect. An argument of at least `2 ^ 31` is clamped, which
matters where items are unpacked, and where operands are counted by its low bytes. -/
def Honest (op : Opcode) (arg : ℕ) : Prop :=
  match op with
  | .unpackSequence => arg < 2 ^ 31
  | .callFunction | .makeFunction | .makeClosure => arg < 2 ^ 31 ∨ arg % 65536 = 65535
  | _ => True

/-- Instructions whose declared effect is not below their effect are the honest ones. -/
lemma netEffect_le_iff {op : Opcode} {arg : ℕ} :
    op.netEffect arg ≤ op.stackEffect arg ↔ op.Honest arg := by
  rcases Nat.lt_or_ge arg (2 ^ 31) with hlt | hge
  · have hhonest : op.Honest arg := by
      cases op with
      | unpackSequence => exact hlt
      | callFunction | makeFunction | makeClosure => exact .inl hlt
      | _ => trivial
    simp only [netEffect_eq hlt, le_refl, hhonest]
  · have hmin : min arg 0x7fffffff = 0x7fffffff := by omega
    cases op with
    | buildTuple | buildList =>
        simp only [netEffect, stackEffect, hmin, Honest, iff_true]
        omega
    | unpackSequence =>
        simp only [netEffect, stackEffect, hmin, Honest]
        omega
    | callFunction | makeFunction | makeClosure =>
        simp only [netEffect, stackEffect, hmin, Honest, Exec.argumentCount, Exec.splitCounts]
        omega
    | _ => simp [netEffect, Honest]

instance (op : Opcode) (arg : ℕ) : Decidable (op.Honest arg) :=
  decidable_of_iff _ netEffect_le_iff

/-- No declared effect is `2 ^ 31` or more. -/
lemma stackEffect_lt (op : Opcode) (arg : ℕ) : op.stackEffect arg < 2 ^ 31 := by
  cases op with
  | unpackSequence =>
      simp only [stackEffect]
      omega
  | _ => simp only [stackEffect]; omega

end Opcode

namespace Emission

/-- The argument, zero for a jump that is not filled in yet. -/
def argument (e : Emission) : ℕ :=
  (e.arg?.map UInt32.toNat).getD 0

/-- What an instruction adds to the stack beyond what it declares. -/
def excess (e : Emission) : ℕ :=
  (e.op.netEffect e.argument - e.op.stackEffect e.argument).toNat

lemma excess_eq_zero_iff {e : Emission} : e.excess = 0 ↔ e.op.Honest e.argument := by
  rw [← Opcode.netEffect_le_iff, excess]
  omega

/-- What instructions add to the stack beyond what they declare. -/
def undeclared (es : List Emission) : ℕ :=
  (es.map excess).sum

lemma undeclared_append (es es' : List Emission) :
    undeclared (es ++ es') = undeclared es + undeclared es' := by
  rw [undeclared, List.map_append, List.sum_append]
  rfl

lemma undeclared_singleton (e : Emission) : undeclared [e] = e.excess :=
  Nat.add_zero _

lemma undeclared_eq_zero {es : List Emission} (h : ∀ e ∈ es, e.op.Honest e.argument) :
    undeclared es = 0 := by
  refine List.sum_eq_zero fun k hk => ?_
  obtain ⟨e, he, rfl⟩ := List.mem_map.mp hk
  exact excess_eq_zero_iff.mpr (h e he)

/-- The depth after an instruction at the depth `d`, as it is declared. -/
def depthAfter (d : ℕ) (e : Emission) : ℕ :=
  ((d : ℤ) + e.op.stackEffect e.argument).toNat

/-- The depth after instructions in a row, as it is declared. -/
def depth (d : ℕ) (es : List Emission) : ℕ :=
  es.foldl depthAfter d

lemma depth_append (d : ℕ) (es : List Emission) (e : Emission) :
    depth d (es ++ [e]) = depthAfter (depth d es) e := by
  rw [depth, List.foldl_append]
  rfl

end Emission

namespace Assembler

variable {a b : Assembler} {ds : List Directive} {d : Directive} {op : Opcode}

/-- The state `b` has the depths of the state `a`. -/
structure SameDepth (a b : Assembler) : Prop where
  depth : b.depth = a.depth
  maxDepth : b.maxDepth = a.maxDepth

/-- The depths of the state `b` follow the instruction `op` with the argument `arg`. -/
structure Tracks (a b : Assembler) (op : Opcode) (arg : ℕ) : Prop where
  depth : b.depth = ((a.depth : ℤ) + op.stackEffect arg).toNat
  maxDepth : b.maxDepth = max a.maxDepth b.depth

lemma tracks_emit (h : (a.emit op).error = none) : a.Tracks (a.emit op) op 0 := by
  rw [emit] at h ⊢
  split at h
  · exact absurd h (error_fail_ne _ _)
  next hop =>
    rw [if_neg hop]
    exact ⟨rfl, rfl⟩

lemma tracks_emitArg {n : UInt32} (h : (a.emitArg op n).error = none) :
    a.Tracks (a.emitArg op n) op n.toNat := by
  rw [emitArg] at h ⊢
  split at h
  · exact absurd h (error_fail_ne _ _)
  next hop =>
    rw [if_neg hop]
    split at h
    · exact absurd h (error_fail_ne _ _)
    next hjump =>
      rw [if_neg hjump]
      exact ⟨rfl, rfl⟩

lemma tracks_emitJump {label : ℕ} (h : (a.emitJump op label).error = none) :
    a.Tracks (a.emitJump op label) op 0 := by
  rw [emitJump] at h ⊢
  split at h
  next hjump =>
    rw [if_pos hjump]
    exact ⟨rfl, rfl⟩
  · exact absurd h (error_fail_ne _ _)

/-- **A directive that writes an instruction** follows its declared effect. -/
lemma tracks_apply {e : Emission} (he : a.emission? d = some e) (h : (a.apply d).error = none) :
    a.Tracks (a.apply d) e.op e.argument := by
  obtain ⟨op, hop, rfl⟩ := Option.map_eq_some_iff.mp he
  cases d with
  | op o =>
      cases hop
      exact tracks_emit h
  | arg o n =>
      cases hop
      exact tracks_emitArg h
  | const k =>
      cases hop
      obtain ⟨hdepth, hmax⟩ := tracks_emitArg h
      exact ⟨hdepth, hmax⟩
  | name o s =>
      cases hop
      obtain ⟨hdepth, hmax⟩ := tracks_emitArg h
      exact ⟨hdepth, hmax⟩
  | «local» o s =>
      cases hop
      obtain ⟨hdepth, hmax⟩ := tracks_emitArg h
      exact ⟨hdepth, hmax⟩
  | deref o s =>
      cases hop
      rw [apply, emitDeref] at h ⊢
      rw [Emission.argument, argument?]
      cases hindex : a.cellIndex? s with
      | none =>
          rw [hindex] at h
          exact absurd h (error_fail_ne _ _)
      | some i =>
          rw [hindex] at h
          exact tracks_emitArg h
  | compare o =>
      cases hop
      exact tracks_emitArg h
  | call positional keyword =>
      cases hop
      exact tracks_emitArg h
  | makeFunction defaults kwdefaults closure =>
      cases hop
      exact tracks_emitArg h
  | jump o label =>
      cases hop
      exact tracks_emitJump h
  | _ => cases hop

/-- Parameters have no depth. -/
lemma sameDepth_declare {cond : Bool} {e : BuildError} (names : List String)
    (h : ((a.failIf cond e).pushParams names).error = none) :
    a.SameDepth ((a.failIf cond e).pushParams names) := by
  rw [(declare_of_error h).2.2]
  exact ⟨rfl, rfl⟩

/-- **A directive that writes nothing** leaves the depths. -/
lemma sameDepth_apply (he : a.emission? d = none) (h : (a.apply d).error = none) :
    a.SameDepth (a.apply d) := by
  have hop : d.opcode? = none := Option.map_eq_none_iff.mp he
  cases d with
  | newLabel => exact ⟨rfl, rfl⟩
  | cellvars names => exact ⟨rfl, rfl⟩
  | freevars names => exact ⟨rfl, rfl⟩
  | args names =>
      obtain ⟨hdepth, hmax⟩ := sameDepth_declare names h
      exact ⟨hdepth, hmax⟩
  | kwonlyArgs names =>
      obtain ⟨hdepth, hmax⟩ := sameDepth_declare names h
      exact ⟨hdepth, hmax⟩
  | varargs name =>
      obtain ⟨hdepth, hmax⟩ := sameDepth_declare [name] h
      exact ⟨hdepth, hmax⟩
  | varkeywords name =>
      obtain ⟨hdepth, hmax⟩ := sameDepth_declare [name] h
      exact ⟨hdepth, hmax⟩
  | bind label =>
      rw [apply, bindLabel]
      split <;> exact ⟨rfl, rfl⟩
  | _ => cases hop

/-- The greatest depth so far never falls. -/
lemma maxDepth_le_run (h : (a.run ds).error = none) : a.maxDepth ≤ (a.run ds).maxDepth := by
  induction ds generalizing a with
  | nil => exact Nat.le_refl _
  | cons d ds ih =>
      have hd : (a.apply d).error = none := ((a.apply d).extends_run ds).error h
      refine Nat.le_trans ?_ (ih h)
      cases he : a.emission? d with
      | none =>
          exact Nat.le_of_eq (sameDepth_apply he hd).maxDepth.symm
      | some e =>
          rw [(tracks_apply he hd).maxDepth]
          exact Nat.le_max_left _ _

/-- **The declared depth** after the first instructions is at most the greatest depth. -/
lemma depth_le_maxDepth {done todo : List Emission} (h : (a.run ds).error = none)
    (ha : a.depth ≤ a.maxDepth) (hes : a.emissions ds = done ++ todo) :
    Emission.depth a.depth done ≤ (a.run ds).maxDepth := by
  induction ds generalizing a done with
  | nil =>
      obtain rfl : done = [] := (List.append_eq_nil_iff.mp hes.symm).1
      exact ha
  | cons d ds ih =>
      have hd : (a.apply d).error = none := ((a.apply d).extends_run ds).error h
      rw [emissions] at hes
      cases he : a.emission? d with
      | none =>
          have hsame : a.SameDepth (a.apply d) := sameDepth_apply he hd
          rw [he] at hes
          have hle := ih h (by rw [hsame.depth, hsame.maxDepth]; exact ha) hes
          rwa [hsame.depth] at hle
      | some e =>
          obtain ⟨hdepth, hmax⟩ := tracks_apply he hd
          rw [he] at hes
          cases done with
          | nil => exact Nat.le_trans ha (maxDepth_le_run h)
          | cons e' done =>
              obtain ⟨rfl, hrest⟩ := List.cons.inj hes
              have hle := ih h (by rw [hmax]; exact Nat.le_max_right _ _) hrest
              rwa [hdepth] at hle

/-- Each directive adds less than `2 ^ 31` to the greatest depth. -/
lemma maxDepth_le_mul {k : ℕ} (h : (a.run ds).error = none) (hdepth : a.depth ≤ k)
    (hmax : a.maxDepth ≤ k) : (a.run ds).maxDepth ≤ k + ds.length * 2 ^ 31 := by
  induction ds generalizing a k with
  | nil => exact Nat.le_trans hmax (Nat.le_add_right _ _)
  | cons d ds ih =>
      have hd : (a.apply d).error = none := ((a.apply d).extends_run ds).error h
      have hnext : (a.apply d).depth ≤ k + 2 ^ 31 ∧ (a.apply d).maxDepth ≤ k + 2 ^ 31 := by
        cases he : a.emission? d with
        | none =>
            have hsame : a.SameDepth (a.apply d) := sameDepth_apply he hd
            rw [hsame.depth, hsame.maxDepth]
            omega
        | some e =>
            obtain ⟨hdepth', hmax'⟩ := tracks_apply he hd
            have hlt := e.op.stackEffect_lt e.argument
            omega
      have hle := ih h hnext.1 hnext.2
      rw [List.length_cons]
      refine Nat.le_trans hle ?_
      omega

end Assembler

/-! ### Straight-line programs -/

namespace Assembler

variable {op : Opcode}

/-- An opcode that does not jump has no conditional jump. -/
lemma jumps_eq_false (hop : isJump op = false) (stack : List Value) (h : Heap) :
    op.jumps stack h = false := by
  cases op with
  | popJumpIf cond => cases hop
  | jumpIfOrPop cond => cases hop
  | forIter => cases hop
  | _ => rfl

/-- The instruction of an opcode that does not jump has no target. -/
lemma target?_eq_none {c : Code} {start : ℕ} {i : Instruction} (hi : i.Decoded c start)
    (hop : i.opcode = some op) (hjump : isJump op = false) : i.operand.target? = none := by
  have hfits := hi.fits hop
  rw [isJump, Bool.or_eq_false_iff, beq_eq_false_iff_ne, beq_eq_false_iff_ne] at hjump
  generalize op.operandKind = kind at hfits hjump
  cases kind with
  | jumpRel => exact absurd rfl hjump.1
  | jumpAbs => exact absurd rfl hjump.2
  | none => rw [show i.operand = .none from hfits]; rfl
  | free =>
      obtain ⟨index, hindex, -⟩ := hfits
      rw [hindex]
      rfl
  | _ =>
      obtain ⟨x, hx⟩ := hfits
      rw [hx]
      rfl

end Assembler

namespace Emission

variable {c : Code} {es : List Emission} {offset bound : ℕ} {i : Instruction}

/-- What is decoded where instructions begin is the first of them. -/
lemma Tiles.decode_ok (h : Tiles c offset es) (hd : c.decode offset = .ok i) :
    ∃ e rest, es = e :: rest ∧ e.Matches i ∧ Tiles c i.next rest := by
  cases h with
  | nil =>
      have hi := Code.decode_decoded hd
      exact absurd (Nat.lt_of_lt_of_le hi.lt_next hi.next_le) (Nat.lt_irrefl _)
  | cons stored rest =>
      have hmatches := stored.decode_ok hd
      exact ⟨_, _, rfl, hmatches, hmatches.next ▸ rest⟩

/-- The instructions `es` are the code `c`. None of them jumps, and the depth after the first of
them is bounded, what they do not declare included. -/
structure StraightLine (c : Code) (es : List Emission) (bound : ℕ) : Prop where
  tiles : Tiles c 0 es
  plain : ∀ e ∈ es, Assembler.isJump e.op = false
  arg : ∀ e ∈ es, ∃ n, e.arg? = some n
  depth_le : ∀ done todo, es = done ++ todo → depth 0 done + undeclared done ≤ bound

end Emission

open Emission in
/-- The frame goes on with a rest of the instructions `es`. Its operands, and `due` values that are
still to come, are no more than the instructions before it account for. -/
structure Frame.Stands (c : Code) (es : List Emission) (due : ℕ) (f : Frame) : Prop where
  code : f.code.code = c
  blocks : f.blocks = []
  place : ∃ done todo, es = done ++ todo ∧ Tiles c f.ip todo ∧
    f.stack.length + due ≤ depth 0 done + undeclared done

namespace Frame.Stands

open Emission

variable {c : Code} {es : List Emission} {bound due : ℕ} {f : Frame} {i : Instruction}

lemma length_le (hs : StraightLine c es bound) (hf : f.Stands c es due) :
    f.stack.length ≤ bound := by
  obtain ⟨done, todo, hes, -, hlength⟩ := hf.place
  exact Nat.le_trans (Nat.le_of_add_right_le hlength) (hs.depth_le done todo hes)

/-- A frame that has executed the next instruction stands behind it, if its stack has grown by the
effect of the instruction. -/
lemma advance (hs : StraightLine c es bound) (hf : f.Stands c es 0)
    (hd : f.code.code.decode f.ip = .ok i) :
    ∃ op, i.opcode = some op ∧ Assembler.isJump op = false ∧ i.operand.target? = none ∧
      ∀ (f' : Frame) (due : ℕ), f'.code = f.code → f'.blocks = [] → f'.ip = i.next →
        (f'.stack.length : ℤ) + due = f.stack.length + op.netEffect i.arg →
        f'.Stands c es due := by
  obtain ⟨done, todo, hes, htiles, hlength⟩ := hf.place
  rw [hf.code] at hd
  obtain ⟨e, rest, rfl, hmatches, hrest⟩ := htiles.decode_ok hd
  have hmem : e ∈ es := by
    rw [hes]
    exact List.mem_append_right _ List.mem_cons_self
  obtain ⟨n, hn⟩ := hs.arg e hmem
  have harg : i.arg = e.argument := by
    rw [hmatches.arg n hn, argument, hn]
    rfl
  have hplain := hs.plain e hmem
  refine ⟨e.op, hmatches.opcode, hplain,
    Assembler.target?_eq_none (Code.decode_decoded hd) hmatches.opcode hplain, ?_⟩
  intro f' due hcode hblocks hip hgrown
  refine ⟨hcode ▸ hf.code, hblocks, done ++ [e], rest, by simp [hes], hip ▸ hrest, ?_⟩
  rw [harg] at hgrown
  rw [depth_append, depthAfter, undeclared_append, undeclared_singleton, excess]
  omega

end Frame.Stands

/-! ### Moments -/

/-- A handler ends only where there is a block. -/
lemma Exec.ne_of_blocks_nil {m m' : Machine} {f : Frame} {below : List Frame} {code : CodeObject}
    {i : Instruction} {op : Opcode} {s : Option Signal} (hf : m.frames = f :: below)
    (hblocks : f.blocks = []) (h : executeOp code i op m = .ok s m') :
    op ≠ .endFinally ∧ op ≠ .popExcept := by
  have hcleanup : ∀ name pending m', popCleanup name m ≠ .ok pending m' := by
    intro name pending m' hp
    obtain ⟨handler, level, rest, hcons, -⟩ := popCleanup_ok hf hp
    rw [hblocks] at hcons
    cases hcons
  constructor
  · rintro rfl
    obtain ⟨pending, m₁, hp, -⟩ := bind_ok_iff.mp h
    exact hcleanup _ _ _ hp
  · rintro rfl
    obtain ⟨u, m₁, h₁, -⟩ := bind_ok_iff.mp h
    obtain ⟨pending, m₂, hp, -⟩ := bind_ok_iff.mp h₁
    exact hcleanup _ _ _ hp

/-- An instruction that asks for a signal pushes nothing, where there are no blocks. -/
lemma Effect.length_le_of_signal {i : Instruction} {f : Frame} {below : List Frame}
    {m m' : Machine} {s : Signal} (h : Effect i f below m m' (some s)) (hblocks : f.blocks = []) :
    ∃ f', m'.frames = f' :: below ∧ f'.blocks = [] ∧ f'.stack.length ≤ f.stack.length := by
  generalize hsignal : some s = signal at h
  cases h with
  | returned operand frames _ =>
      refine ⟨_, frames, hblocks, ?_⟩
      rw [operand]
      exact Nat.le_succ _
  | reraised _ frames _ => exact ⟨f, frames, hblocks, Nat.le_refl _⟩
  | broken frames _ => exact ⟨f, frames, hblocks, Nat.le_refl _⟩
  | continued _ frames _ => exact ⟨f, frames, hblocks, Nat.le_refl _⟩
  | resumed blocks _ _ =>
      rw [hblocks] at blocks
      cases blocks
  | _ => cases hsignal

namespace Moment

open Emission

variable {c : Code} {es : List Emission} {bound : ℕ} {x : Moment} {l l' : Loop} {f : Frame}
  {i : Instruction}

/-- **An instruction that is done** leaves the frame behind it. A call of a function leaves it
waiting for one value. -/
lemma stands_of_next_stepping (hs : StraightLine c es bound) (hin : l.InFrame f [])
    (hf : f.Stands c es 0) (hd : f.code.code.decode f.ip = .ok i)
    (hnext : next (.stepping l) = .stepping l') :
    (∃ f', l'.machine.frames = [f'] ∧ f'.Stands c es 0) ∨
      ∃ callee f', l'.machine.frames = [callee, f'] ∧ f'.Stands c es 1 := by
  have hrun := execute_of_next_stepping hin hd hnext
  have hfetched := hin.frames_fetched i
  have heffect := Exec.execute_effect hfetched hrun
  obtain ⟨op, hop, hplain, htarget, hadvance⟩ := hf.advance hs hd
  rw [Exec.execute, hop] at hrun
  obtain ⟨hend, hexcept⟩ := Exec.ne_of_blocks_nil hfetched hf.blocks hrun
  generalize hsignal : (none : Option Signal) = signal at heffect
  cases heffect with
  | called opcode callable _ _ frames _ =>
      obtain rfl : op = .callFunction := Option.some.inj (hop.symm.trans opcode)
      refine .inr ⟨_, _, frames, hadvance _ 1 rfl hf.blocks rfl ?_⟩
      obtain ⟨hlt, -⟩ := List.getElem?_eq_some_iff.mp callable
      simp only [Frame.fetched, List.length_drop, Opcode.netEffect] at hlt ⊢
      omega
  | @moved stack ip offset frames _ =>
      have hip : ip = i.next := by
        rcases offset with rfl | htarget'
        · rfl
        · rw [htarget] at htarget'
          cases htarget'
      have hlength : l'.machine.frames.length = (l.fetched i).frames.length := by
        rw [frames, hfetched, List.length_cons, List.length_cons]
      obtain ⟨f', hf', hgrown⟩ := Exec.perform_grown hfetched hexcept
        (Assembler.jumps_eq_false hplain _ _) (Exec.perform_of_executeOp hend hrun) hlength
      rw [frames] at hf'
      cases hf'
      refine .inl ⟨_, frames, hadvance _ 0 rfl hf.blocks hip ?_⟩
      rw [Nat.cast_zero, add_zero]
      exact hgrown
  | opened target _ _ =>
      rw [htarget] at target
      cases target
  | closed blocks _ _ _ | finishing _ blocks _ _ _ | dropped blocks _ _ | resumed blocks _ _ =>
      have hnil : (f.fetched i).blocks = [] := hf.blocks
      rw [hnil] at blocks
      cases blocks
  | _ => cases hsignal

/-- The first frame is about to execute an instruction, waits for a function that it has called, or
is about to end; or it has ended. -/
inductive Fits (c : Code) (es : List Emission) (bound : ℕ) : Moment → Prop
  | executing {l : Loop} {f : Frame} (frames : l.machine.frames = [f]) (stands : f.Stands c es 0) :
      Fits c es bound (.stepping l)
  | waiting {x : Moment} (g : Frame) (newer : List Frame) {f : Frame}
      (frames : x.frames = g :: newer ++ [f]) (stands : f.Stands c es 1) : Fits c es bound x
  | signalling {l : Loop} {s : Signal} {f : Frame} (frames : l.machine.frames = [f])
      (blocks : f.blocks = []) (fits : f.stack.length ≤ bound) : Fits c es bound (.offering l s)
  | leaving {m : Machine} {s : Signal} {f : Frame} (frames : m.frames = [f])
      (fits : f.stack.length ≤ bound) : Fits c es bound (.leaving m s)
  | ended {m : Machine} {result : Except Fault Value} (frames : m.frames = []) :
      Fits c es bound (.ended m result)

namespace Fits

lemma length_le (hs : StraightLine c es bound) (h : Fits c es bound x)
    (hf : x.frames.getLast? = some f) : f.stack.length ≤ bound := by
  have hlast : ∀ (newer : List Frame) (g : Frame), x.frames = newer ++ [g] → f = g := by
    intro newer g hframes
    rw [hframes, List.getLast?_append, List.getLast?_singleton] at hf
    exact (Option.some.inj hf).symm
  cases h with
  | @executing l g frames stands =>
      obtain rfl := hlast [] g frames
      exact stands.length_le hs
  | @waiting _ callee newer g frames stands =>
      obtain rfl := hlast (callee :: newer) g frames
      exact stands.length_le hs
  | @signalling l s g frames blocks fits =>
      obtain rfl := hlast [] g frames
      exact fits
  | @leaving m s g frames fits =>
      obtain rfl := hlast [] g frames
      exact fits
  | @ended m result frames =>
      have hnil : (Moment.ended m result).frames = [] := frames
      rw [hnil] at hf
      cases hf

/-- The frame executes an instruction. -/
lemma next_executing (hs : StraightLine c es bound) (hx : Reachable (.stepping l))
    (hframes : l.machine.frames = [f]) (hf : f.Stands c es 0) :
    Fits c es bound (next (.stepping l)) := by
  have ht := hx.transition
  generalize hy : next (.stepping l) = y at ht ⊢
  cases ht with
  | undecodable inside _ frames _ =>
      obtain ⟨rfl, rfl⟩ := List.cons.inj (inside.frames.symm.trans hframes)
      exact .leaving frames (hf.length_le hs)
  | failed inside _ inside' _ =>
      obtain ⟨rfl, rfl⟩ := List.cons.inj (inside.frames.symm.trans hframes)
      refine .signalling inside'.frames hf.blocks (Nat.le_trans ?_ (hf.length_le hs))
      rw [List.length_drop]
      exact Nat.sub_le _ _
  | signalled inside _ effect _ =>
      obtain ⟨rfl, rfl⟩ := List.cons.inj (inside.frames.symm.trans hframes)
      obtain ⟨f', hf', hblocks, hle⟩ := effect.length_le_of_signal hf.blocks
      have hlength := hf.length_le hs
      exact .signalling hf' hblocks (Nat.le_trans hle hlength)
  | executed inside decoded _ _ =>
      obtain ⟨rfl, rfl⟩ := List.cons.inj (inside.frames.symm.trans hframes)
      rcases stands_of_next_stepping hs inside hf decoded hy with
        ⟨f', hf', hstands⟩ | ⟨callee, f', hf', hstands⟩
      · exact .executing hf' hstands
      · exact .waiting callee [] hf' hstands

/-- A frame that has been called ends, and the first frame is the current one again. -/
lemma next_returned {m : Machine} {s : Signal} {callee : Frame} (hs : StraightLine c es bound)
    (hx : Reachable (.leaving m s)) (hframes : m.frames = [callee, f]) (hf : f.Stands c es 1) :
    Fits c es bound (next (.leaving m s)) := by
  have ht := hx.transition
  generalize next (.leaving m s) = y at ht ⊢
  cases ht with
  | returned frames _ inside' _ =>
      rw [hframes] at frames
      cases frames
      obtain ⟨done, todo, hes, htiles, hlength⟩ := hf.place
      exact .executing inside'.frames ⟨hf.code, hf.blocks, done, todo, hes, htiles, hlength⟩
  | raised frames _ inside' _ =>
      rw [hframes] at frames
      cases frames
      exact .signalling inside'.frames hf.blocks (hf.length_le hs)
  | finished frames _ _ =>
      rw [hframes] at frames
      cases frames

/-- A frame above the first one goes on, calls, or ends. -/
lemma next_waiting {g : Frame} {newer : List Frame} (hs : StraightLine c es bound)
    (hx : Reachable x) (hframes : x.frames = g :: newer ++ [f]) (hf : f.Stands c es 1) :
    Fits c es bound x.next := by
  cases hx.transition.frameStep hx.current with
  | @goes _ g' below before after _ =>
      rw [hframes] at before
      cases before
      exact .waiting g' newer after hf
  | @calls _ g' callee below before after _ =>
      rw [hframes] at before
      cases before
      exact .waiting callee (g' :: newer) after hf
  | @ends _ g₁ g₁' below leaving before after _ _ =>
      rw [hframes] at before
      cases newer with
      | nil =>
          obtain ⟨m, s, rfl⟩ := leaving
          exact next_returned hs hx hframes hf
      | cons g₂ newer =>
          cases before
          exact .waiting g₁' newer after hf
  | last _ before =>
      rw [hframes] at before
      simp at before
  | gone before =>
      rw [hframes] at before
      cases before

/-- **One moment** after the other. -/
lemma next (hs : StraightLine c es bound) (hx : Reachable x) (h : Fits c es bound x) :
    Fits c es bound x.next := by
  cases h with
  | executing frames stands => exact next_executing hs hx frames stands
  | waiting callee newer frames stands => exact next_waiting hs hx frames stands
  | @signalling l s f frames blocks fits =>
      have ht := hx.transition
      generalize (Moment.offering l s).next = y at ht ⊢
      -- a frame without blocks lets every signal escape, with the stack as it is
      cases ht with
      | taken inside unwound _ _ =>
          obtain ⟨rfl, rfl⟩ := List.cons.inj (inside.frames.symm.trans frames)
          rw [Frame.unwind, blocks] at unwound
          exact absurd rfl unwound
      | escaped inside _ frames' _ =>
          obtain ⟨rfl, rfl⟩ := List.cons.inj (inside.frames.symm.trans frames)
          refine .leaving frames' ?_
          rw [Frame.unwind, blocks]
          exact fits
  | @leaving m s f frames fits =>
      have ht := hx.transition
      generalize (Moment.leaving m s).next = y at ht ⊢
      cases ht with
      | returned frames' _ _ _ =>
          rw [frames] at frames'
          cases frames'
      | raised frames' _ _ _ =>
          rw [frames] at frames'
          cases frames'
      | finished _ _ frames' => exact .ended frames'
  | ended frames => exact .ended frames

/-- **All moments** of a run. -/
lemma iterate (hs : StraightLine c es bound) (hx : Reachable x) (h : Fits c es bound x) (n : ℕ) :
    Fits c es bound (Moment.next^[n] x) := by
  induction n with
  | zero => exact h
  | succ n ih =>
      rw [Function.iterate_succ_apply']
      exact ih.next hs (reachable_iterate hx n)

/-- A run of the code starts before its first instruction. -/
lemma start (hs : StraightLine c es bound) (m : Machine) (ident : Ident)
    (globals locals : Option (Ref .namespace)) :
    Fits c es bound (.ofTurn (m.start ⟨ident, c⟩ globals locals)) := by
  rcases start_cases m ⟨ident, c⟩ globals locals with
    ⟨l, f, ht, hin, -, h, h', hmake⟩ | ⟨m', e, ht, hframes, -⟩
  · rw [ht]
    obtain ⟨hcode, hstack, hblocks, hip, -⟩ := Frame.make_ok hmake
    refine .executing hin.frames ⟨by rw [hcode], hblocks, [], es, rfl, hip ▸ hs.tiles, ?_⟩
    rw [hstack]
    exact Nat.zero_le _
  · rw [ht]
    exact .ended hframes

end Fits

end Moment

/-! ### Assembled programs -/

section Assembled

variable {name : String} {ds : List Directive} {c : Code}

/-- An instruction of a program without jumps does not jump, and has an argument. -/
lemma Assembler.plain_of_mem_emissions {a : Assembler} {e : Emission}
    (h : (a.run ds).error = none)
    (hline : ∀ d ∈ ds, ∀ op ∈ d.opcode?, isJump op = false) (he : e ∈ a.emissions ds) :
    isJump e.op = false ∧ ∃ n, e.arg? = some n := by
  obtain ⟨before, after, rfl, hwrites⟩ := exists_of_mem_emissions he
  obtain ⟨op, hop, heq⟩ := Option.map_eq_some_iff.mp hwrites
  have hplain := hline e.directive (List.mem_append_right _ List.mem_cons_self) op hop
  have hwritten := writes_apply hop ((a.extends_run_of_append before e.directive after).error h)
  have harg : (a.run before).argument? e.directive = e.arg? := congrArg Emission.arg? heq
  rw [harg] at hwritten
  rw [← congrArg Emission.op heq]
  refine ⟨hplain, ?_⟩
  generalize e.arg? = arg? at hwritten
  cases hwritten with
  | plain _ _ _ => exact ⟨_, rfl⟩
  | withArg _ _ _ _ => exact ⟨_, rfl⟩
  | jump isJump _ _ =>
      rw [hplain] at isJump
      cases isJump

lemma Emission.straightLine_of_assemble (h : assemble name ds = .ok c)
    (hline : ∀ d ∈ ds, ∀ op ∈ d.opcode?, Assembler.isJump op = false) :
    StraightLine c (Assembler.emissions { name } ds)
      ((Assembler.run { name } ds).maxDepth + undeclared (Assembler.emissions { name } ds)) := by
  have herror := (Assembler.build_ok h).1
  refine ⟨Assembler.tiles_emissions (Assembler.tidy_start name) h,
    fun e he => (Assembler.plain_of_mem_emissions herror hline he).1,
    fun e he => (Assembler.plain_of_mem_emissions herror hline he).2, ?_⟩
  intro done todo hes
  have hdepth := Assembler.depth_le_maxDepth herror (Nat.le_refl _) hes
  rw [hes, undeclared_append]
  exact Nat.add_le_add hdepth (Nat.le_add_right _ _)

/-- The stack size is the greatest depth. -/
lemma stackSize_of_assemble (h : assemble name ds = .ok c) (hlength : ds.length < 2 ^ 32) :
    c.stackSize.toNat = (Assembler.run { name } ds).maxDepth := by
  obtain ⟨herror, -, hcode⟩ := Assembler.build_ok h
  have hle := Assembler.maxDepth_le_mul herror (Nat.le_refl 0) (Nat.le_refl 0)
  rw [hcode]
  exact UInt64.toNat_ofNat_of_lt' (Nat.lt_of_le_of_lt hle (by norm_num [UInt64.size]; omega))

/-- **The operand stack of straight-line code**, in every run and at every moment up to the end of
its frame. It never holds more than the stack size if every declared effect is honest. Without
that, it exceeds the stack size by no more than the instructions leave undeclared. -/
theorem straight_line_fits_stack_size (h : assemble name ds = .ok c)
    (hline : ∀ d ∈ ds, ∀ op ∈ d.opcode?, Assembler.isJump op = false)
    (hlength : ds.length < 2 ^ 32) (m : Machine) (ident : Ident)
    (globals locals : Option (Ref .namespace)) (n : ℕ) {f : Frame}
    (hf : (Moment.next^[n] (.ofTurn (m.start ⟨ident, c⟩ globals locals))).frames.getLast? =
      some f) :
    ((∀ e ∈ Assembler.emissions { name } ds, e.op.Honest e.argument) →
        f.stack.length ≤ c.stackSize.toNat) ∧
      f.stack.length ≤
        c.stackSize.toNat + Emission.undeclared (Assembler.emissions { name } ds) := by
  have hs := Emission.straightLine_of_assemble h hline
  have hfits := (Moment.Fits.start hs m ident globals locals).iterate hs
    (.start m ⟨ident, c⟩ globals locals) n
  have hle := hfits.length_le hs hf
  rw [← stackSize_of_assemble h hlength] at hle
  refine ⟨fun hhonest => ?_, hle⟩
  rwa [Emission.undeclared_eq_zero hhonest] at hle

end Assembled

/-- A program makes a function, calls it and duplicates its value. Its stack is as high then as its
stack size says. -/
theorem call_of_made_function_fits_stack_size :
    let g : Code := { Code.empty "g" with bytecode := #[100, 0, 0, 83], consts := #[.none] }
    let ds : List Directive :=
      [.const .none, .const (.code g), .makeFunction 0 0 false, .call 0 0, .op .dupTop]
    let m : Machine := { builtins := ⟨0⟩ }
    ∃ c, assemble "f" ds = .ok c ∧ c.stackSize = 3 ∧
      (∀ d ∈ ds, ∀ op ∈ d.opcode?, Assembler.isJump op = false) ∧
      (∀ e ∈ Assembler.emissions { name := "f" } ds, e.op.Honest e.argument) ∧
      ∃ f, (Moment.next^[9] (.ofTurn (m.start ⟨default, c⟩ none none))).frames.getLast? = some f ∧
        f.stack.length = 3 ∧ f.stack.length ≤ c.stackSize.toNat := by
  intro g ds m
  let c : Code := ⟨"f", #[100, 0, 0, 100, 1, 0, 132, 0, 0, 131, 0, 0, 4],
    #[.none, .code g], #[], #[], #[], #[], 0, 0, 0, 3⟩
  have hheight : (Moment.next^[9] (.ofTurn
      (m.start ⟨default, c⟩ none none))).frames.getLast?.map (·.stack.length) = some 3 := by
    decide +kernel +revert
  obtain ⟨f, hf, hthree⟩ := Option.map_eq_some_iff.mp hheight
  have hline : ∀ d ∈ ds, ∀ op ∈ d.opcode?, Assembler.isJump op = false := by
    decide
  have hhonest : ∀ e ∈ Assembler.emissions { name := "f" } ds, e.op.Honest e.argument := by
    decide +kernel
  have hassemble : assemble "f" ds = .ok c := by
    cbv
  have hfits := straight_line_fits_stack_size hassemble hline (by decide) m default none none 9 hf
  exact ⟨c, hassemble, rfl, hline, hhonest, f, hf, hthree, hfits.1 hhonest⟩

/-- A function is made with an argument that has no defaults in its low bytes, and that is clamped
where its effect is declared. The stack size is two, and the stack holds three values. -/
theorem clamped_argument_exceeds_stack_size :
    let ds : List Directive := [.const .none, .const (.code (Code.empty "g")),
      .arg .makeFunction 0x80000000, .op .dupTop]
    let m : Machine := { builtins := ⟨0⟩ }
    (∀ d ∈ ds, ∀ op ∈ d.opcode?, Assembler.isJump op = false) ∧
      ∃ c, assemble "f" ds = .ok c ∧ c.stackSize = 2 ∧
        ∃ f, (Moment.next^[4] (.ofTurn (m.start ⟨default, c⟩ none none))).frames.getLast? = some f ∧
          f.stack.length = 3 := by
  intro ds m
  let c : Code := ⟨"f", #[100, 0, 0, 100, 1, 0, 145, 0, 128, 132, 0, 0, 4],
    #[.none, .code (Code.empty "g")], #[], #[], #[], #[], 0, 0, 0, 2⟩
  have hheight : (Moment.next^[4] (.ofTurn
      (m.start ⟨default, c⟩ none none))).frames.getLast?.map (·.stack.length) = some 3 := by
    decide +kernel +revert
  have hassemble : assemble "f" ds = .ok c := by
    cbv
  exact ⟨by decide, c, hassemble, rfl, Option.map_eq_some_iff.mp hheight⟩

end StackVM
