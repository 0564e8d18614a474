/-
Declared stack effects. Each opcode declares how it changes the depth of the operand stack,
and each instruction changes it as its handler does; the two agree wherever the instruction
is done without a signal.

* `Opcode.netEffect`: the effect of an instruction whose argument is not clamped;
* `Exec.Grows`: every result leaves the stack of the current frame grown by a number;
* `Exec.perform_grows`, `Exec.perform_grown`: handlers let the stack grow by that effect;
* `Moment.Completes`: an instruction is done, which for a call is many moments later;
* `Moment.FallsThroughAll`: instructions are done one after the other;
* `stack_effects_match_execution`: the depth changes by the sum of the declared effects.
-/
import StackVM.Proofs.CallNesting

namespace StackVM

/-! ### Conditional jumps -/

/-- The instruction has a jump that depends on the top operand, and takes it. -/
def Opcode.jumps (op : Opcode) (stack : List Value) (h : Heap) : Bool :=
  match op, stack with
  | .popJumpIf cond, v :: _ => h.truth v == cond
  | .jumpIfOrPop cond, v :: _ => h.truth v == cond
  | .forIter, .iter r :: _ =>
    match (h.iter r).next h with
    | .ok none _ => true
    | _ => false
  | _, _ => false

/-! ### Effects of unclamped arguments -/

namespace Opcode

/-- The change of the depth that an instruction makes with its argument as it is. The declared
effect looks at an argument that has been clamped. -/
def netEffect (op : Opcode) (arg : Nat) : Int :=
  match op with
  | .buildTuple | .buildList => 1 - (arg : Int)
  | .unpackSequence => (arg : Int) - 1
  | .callFunction | .makeFunction => -(Exec.argumentCount arg : Int)
  | .makeClosure => -(Exec.argumentCount arg : Int) - 1
  | op => op.stackEffect arg

/-- An argument that is not clamped has the declared effect. -/
lemma netEffect_eq {arg : Nat} (harg : arg < 2 ^ 31) (op : Opcode) :
    op.netEffect arg = op.stackEffect arg := by
  have hmin : min arg 0x7fffffff = arg := by omega
  cases op with
  | buildTuple | buildList | unpackSequence => simp only [netEffect, stackEffect, hmin]
  | callFunction | makeFunction | makeClosure =>
      simp only [netEffect, stackEffect, hmin, Exec.argumentCount, Exec.splitCounts]
      omega
  | _ => rfl

end Opcode

/-! ### Growth of the operand stack -/

namespace Exec

variable {α β : Type} {d e : Int}

/-- Every result of `x` leaves the operand stack of the current frame grown by `d`, and the
frames below it as they were. -/
def Grows (d : Int) (x : Exec α) : Prop :=
  ∀ m a m' f below, m.frames = f :: below → x m = .ok a m' →
    ∃ f', m'.frames = f' :: below ∧ (f'.stack.length : Int) = f.stack.length + d

lemma Grows.cast {x : Exec α} (hx : Grows d x) (h : d = e) : Grows e x :=
  h ▸ hx

/-- In a sequence the growths add up. -/
lemma Grows.bind {x : Exec α} {f : α → Exec β} (hx : Grows d x) (hf : ∀ a, Grows e (f a)) :
    Grows (d + e) (x >>= f) := by
  intro m b m'' f₀ below hm h
  obtain ⟨a, m', h₁, h₂⟩ := bind_ok_iff.mp h
  obtain ⟨f₁, hm', hlen₁⟩ := hx m a m' f₀ below hm h₁
  obtain ⟨f₂, hm'', hlen₂⟩ := hf a m' b m'' f₁ below hm' h₂
  exact ⟨f₂, hm'', by omega⟩

/-- What fails has no result. -/
lemma throw_grows (x : Fault) : Grows d (throw x : Exec α) := by
  intro m a m' f below hf h
  cases h

lemma fail_grows (c : Cause) : Grows d (fail c : Exec α) :=
  throw_grows _

/-- What leaves the frames alone lets no stack grow. -/
lemma grows_of_frames {x : Exec α} (hx : ∀ m a m', x m = .ok a m' → m'.frames = m.frames) :
    Grows 0 x := by
  intro m a m' f below hf h
  exact ⟨f, (hx m a m' h).trans hf, by omega⟩

lemma pure_grows (a : α) : Grows 0 (pure a : Exec α) :=
  grows_of_frames fun m b m' h => by cases h; rfl

lemma lift_grows (x : Eval α) : Grows 0 (liftM x : Exec α) := by
  refine grows_of_frames fun m a m' h => ?_
  obtain ⟨h', -, rfl⟩ := lift_ok_iff.mp h
  rfl

lemma heap_grows : Grows 0 heap :=
  grows_of_frames fun m h m' hm => by cases hm; rfl

lemma put_grows (os : List Output) : Grows 0 (put os) :=
  grows_of_frames fun m u m' h => by cases h; rfl

lemma ofExcept_grows (x : Except Cause α) : Grows 0 (ofExcept x) :=
  grows_of_frames fun m a m' h => by rw [(ofExcept_ok h).2]

lemma operand_grows (i : Instruction) (found : Option α) : Grows 0 (operand i found) :=
  grows_of_frames fun m a m' h => by rw [(operand_ok h).2]

lemma frame_grows : Grows 0 frame := by
  intro m a m' f below hf h
  rw [frame_run hf] at h
  cases h
  exact ⟨_, hf, by omega⟩

lemma peek_grows : Grows 0 peek := by
  refine frame_grows.bind fun f => (?_ : Grows 0 _)
  split
  · exact pure_grows _
  · exact throw_grows _

/-- A change of the current frame lets its stack grow as it says. -/
lemma modifyFrame_grows {g : Frame → Frame}
    (hg : ∀ f, ((g f).stack.length : Int) = f.stack.length + d) : Grows d (modifyFrame g) := by
  intro m u m' f below hf h
  rw [modifyFrame_run hf] at h
  cases h
  exact ⟨g f, Machine.frames_withTop hf _, hg f⟩

lemma push_grows (v : Value) : Grows 1 (push v) :=
  modifyFrame_grows fun f => by simp [Frame.push]

lemma jump_grows (t : Nat) : Grows 0 (jump t) :=
  modifyFrame_grows fun f => by simp

lemma pop_grows : Grows (-1) pop := by
  intro m v m' f below hf h
  obtain ⟨vs, hvs, rfl⟩ := pop_ok hf h
  exact ⟨_, Machine.frames_withTop hf _, by simp [hvs]⟩

lemma discardPop_grows : Grows (-1) (discard pop) :=
  pop_grows.bind fun _ => pure_grows _

lemma popN_grows (n : Nat) : Grows (-n) (popN n) := by
  intro m vs m' f below hf h
  rw [popN_run hf] at h
  split at h
  next hn =>
    cases h
    exact ⟨_, Machine.frames_withTop hf _, by simp only [List.length_drop]; omega⟩
  next => cases h

lemma rotate_grows {n : Nat} (hn : 0 < n) : Grows 0 (rotate n) := by
  intro m u m' f below hf h
  rw [rotate_run hf, Frame.rotate?] at h
  split at h
  next f' hf' =>
    split at hf'
    next hle =>
      cases h
      cases hf'
      refine ⟨_, Machine.frames_withTop hf _, ?_⟩
      simp only [List.length_append, List.length_tail, List.length_take, List.length_drop]
      omega
    next => cases hf'
  next => cases h

/-! ### Instructions -/

lemma loadVariable_grows (scope : Scope) (name : String) : Grows 1 (loadVariable scope name) := by
  refine frame_grows.bind fun f => heap_grows.bind fun h => (?_ : Grows 1 _)
  split
  · exact push_grows _
  · exact fail_grows _

lemma storeVariable_grows (scope : Scope) (name : String) :
    Grows (-1) (storeVariable scope name) :=
  pop_grows.bind fun _ => frame_grows.bind fun _ => lift_grows _

lemma deleteVariable_grows (scope : Scope) (name : String) :
    Grows 0 (deleteVariable scope name) := by
  refine frame_grows.bind fun f => heap_grows.bind fun h => (?_ : Grows 0 _)
  split
  · exact lift_grows _
  · exact fail_grows _

lemma cellAt_grows (index : Nat) : Grows 0 (cellAt index) := by
  refine frame_grows.bind fun f => (?_ : Grows 0 _)
  split
  · exact pure_grows _
  · exact throw_grows _

lemma loadCell_grows (index : Nat) : Grows 1 (loadCell index) := by
  refine heap_grows.bind fun h => (cellAt_grows index).bind fun r => (?_ : Grows 1 _)
  split
  · exact push_grows _
  · refine frame_grows.bind fun f => (?_ : Grows 1 _)
    split
    · exact fail_grows _
    · exact throw_grows _

lemma storeCell_grows (index : Nat) : Grows (-1) (storeCell index) :=
  pop_grows.bind fun _ => (cellAt_grows index).bind fun _ => lift_grows _

lemma storeMap_grows : Grows (-2) storeMap := by
  refine pop_grows.bind fun key => pop_grows.bind fun value =>
    peek_grows.bind fun v => (?_ : Grows 0 _)
  cases v with
  | dict r => exact lift_grows _
  | _ => exact fail_grows _

lemma unpacked_grows (v : Value) : Grows 0 (unpacked v) := by
  cases v with
  | tuple ident items => exact pure_grows items
  | list r => exact heap_grows.bind fun h => pure_grows _
  | _ => exact (lift_grows _).bind fun items => pure_grows _

/-- As many items are pushed as the instruction asks for. -/
lemma unpackSequence_grows (count : Nat) : Grows (count - 1) (unpackSequence count) := by
  refine (pop_grows.bind fun v => (unpacked_grows v).bind fun items =>
    (?_ : Grows count _)).cast (by omega)
  split
  · exact fail_grows _
  next hge =>
    split
    · exact fail_grows _
    next hle =>
      refine modifyFrame_grows fun f => ?_
      simp only [List.length_append]
      omega

lemma getIter_grows : Grows 0 getIter := by
  refine pop_grows.bind fun v => (?_ : Grows 1 _)
  cases v with
  | iter r => exact push_grows _
  | _ => exact (lift_grows _).bind fun it => (lift_grows _).bind fun w => push_grows w

lemma popBlock_grows : Grows 0 popBlock := by
  refine frame_grows.bind fun f => (?_ : Grows 0 _)
  split
  · exact fail_grows _
  · refine modifyFrame_grows fun f => ?_
    split <;> simp

lemma setupBlock_grows (kind : BlockKind) (handler : Nat) : Grows 0 (setupBlock kind handler) :=
  modifyFrame_grows fun f => by simp

/-- The defaults are replaced by the function. -/
lemma pushFunction_grows (code : CodeObject) (arg : Nat) (closure : List (Ref .cell)) :
    Grows (1 - argumentCount arg) (pushFunction code arg closure) := by
  refine ((popN_grows _).bind fun pairs => (ofExcept_grows _).bind fun kwdefaults =>
    (popN_grows _).bind fun defaults => frame_grows.bind fun f =>
    (lift_grows _).bind fun v => push_grows v).cast ?_
  simp only [argumentCount, splitCounts]
  omega

lemma popClosure_grows (code : Code) : Grows (-1) (popClosure code) := by
  refine pop_grows.bind fun v => (?_ : Grows 0 _)
  cases v with
  | tuple ident items =>
      refine (ofExcept_grows _).bind fun closure => (?_ : Grows 0 _)
      split
      · exact pure_grows _
      · exact fail_grows _
  | _ => exact fail_grows _

lemma makeFunction_grows (arg : Nat) (isClosure : Bool) :
    Grows (-argumentCount arg - if isClosure then 1 else 0) (makeFunction arg isClosure) := by
  refine (pop_grows.bind fun v => (?_ : Grows (1 - argumentCount arg - if isClosure then 1 else 0)
    _)).cast (by omega)
  cases v with
  | code code =>
      cases isClosure with
      | true =>
          refine ((popClosure_grows code.code).bind fun closure =>
            pushFunction_grows code arg closure).cast ?_
          simp only [if_true]
          omega
      | false => exact (pushFunction_grows code arg []).cast (by simp)
  | _ => exact fail_grows _

/-- The stack grows by the effect of the instruction, unless that pops only on one way of a
conditional jump, calls, or ends a handler. -/
lemma perform_grows (code : CodeObject) (i : Instruction) (op : Opcode) :
    Grows (op.netEffect i.arg) (perform code i op) ∨
      (∃ cond, op = .jumpIfOrPop cond) ∨ op = .forIter ∨ op = .callFunction ∨
        op = .popExcept := by
  cases op with
  | jumpIfOrPop cond => exact .inr (.inl ⟨cond, rfl⟩)
  | forIter => exact .inr (.inr (.inl rfl))
  | callFunction => exact .inr (.inr (.inr (.inl rfl)))
  | popExcept => exact .inr (.inr (.inr (.inr rfl)))
  | nop => exact .inl (pure_grows _)
  | popTop => exact .inl discardPop_grows
  | dupTop => exact .inl (peek_grows.bind fun v => push_grows v)
  | rotTwo => exact .inl (rotate_grows (by omega))
  | rotThree => exact .inl (rotate_grows (by omega))
  | rotFour => exact .inl (rotate_grows (by omega))
  | unary op => exact .inl (pop_grows.bind fun v => (lift_grows _).bind fun w => push_grows w)
  | binary op =>
      cases op with
      | arith op =>
          exact .inl (pop_grows.bind fun r => pop_grows.bind fun l =>
            (lift_grows _).bind fun w => push_grows w)
      | subscr =>
          exact .inl (pop_grows.bind fun key => pop_grows.bind fun v =>
            (lift_grows _).bind fun w => push_grows w)
      | matrixMultiply => exact .inl (fail_grows _)
  | inplace op =>
      exact .inl (pop_grows.bind fun r => pop_grows.bind fun l =>
        (lift_grows _).bind fun w => push_grows w)
  | compare =>
      exact .inl ((operand_grows i _).bind fun op => pop_grows.bind fun r =>
        pop_grows.bind fun l => (lift_grows _).bind fun b => push_grows _)
  | loadConst =>
      exact .inl ((operand_grows i _).bind fun c => (lift_grows _).bind fun v => push_grows v)
  | load scope => exact .inl ((operand_grows i _).bind fun name => loadVariable_grows scope name)
  | store scope =>
      exact .inl ((operand_grows i _).bind fun name => storeVariable_grows scope name)
  | delete scope =>
      exact .inl ((operand_grows i _).bind fun name => deleteVariable_grows scope name)
  | loadClosure =>
      exact .inl ((operand_grows i _).bind fun index =>
        (cellAt_grows index).bind fun r => push_grows _)
  | loadDeref => exact .inl ((operand_grows i _).bind fun index => loadCell_grows index)
  | storeDeref => exact .inl ((operand_grows i _).bind fun index => storeCell_grows index)
  | buildTuple =>
      refine .inl (((popN_grows _).bind fun items =>
        (lift_grows _).bind fun v => push_grows v).cast ?_)
      simp only [Opcode.netEffect]
      omega
  | buildList =>
      refine .inl (((popN_grows _).bind fun items =>
        (lift_grows _).bind fun v => push_grows v).cast ?_)
      simp only [Opcode.netEffect]
      omega
  | buildMap => exact .inl ((lift_grows _).bind fun v => push_grows v)
  | storeMap => exact .inl storeMap_grows
  | storeSubscr =>
      exact .inl (pop_grows.bind fun key => pop_grows.bind fun v =>
        pop_grows.bind fun value => lift_grows _)
  | deleteSubscr => exact .inl (pop_grows.bind fun key => pop_grows.bind fun v => lift_grows _)
  | unpackSequence =>
      exact .inl (unpackSequence_grows i.arg)
  | getIter => exact .inl getIter_grows
  | jumpForward => exact .inl ((operand_grows i _).bind fun t => jump_grows t)
  | jumpAbsolute => exact .inl ((operand_grows i _).bind fun t => jump_grows t)
  | popJumpIf cond =>
      refine .inl ((operand_grows i _).bind fun t => pop_grows.bind fun v =>
        heap_grows.bind fun hp => (?_ : Grows 0 _))
      split
      · exact jump_grows t
      · exact pure_grows _
  | setup block => exact .inl ((operand_grows i _).bind fun t => setupBlock_grows _ t)
  | popBlock => exact .inl popBlock_grows
  | makeFunction =>
      refine .inl ((makeFunction_grows i.arg false).cast ?_)
      simp only [Opcode.netEffect, Bool.false_eq_true, if_false]
      omega
  | makeClosure =>
      refine .inl ((makeFunction_grows i.arg true).cast ?_)
      simp only [Opcode.netEffect, if_true]
  | _ => exact .inl (fail_grows _)

variable {m m' : Machine} {f : Frame} {below : List Frame}

/-- The value that was looked at is on top. -/
lemma peek_ok {v : Value} (hf : m.frames = f :: below) (h : peek m = .ok v m') :
    (∃ vs, f.stack = v :: vs) ∧ m' = m := by
  rw [peek, bind_of_ok (frame_run hf)] at h
  cases hs : f.stack with
  | nil =>
      rw [hs] at h
      cases h
  | cons w ws =>
      rw [hs] at h
      cases h
      exact ⟨⟨ws, rfl⟩, rfl⟩

lemma jumpIfOrPop_grown {code : CodeObject} {i : Instruction} {cond : Bool}
    (hf : m.frames = f :: below) (hjump : (Opcode.jumpIfOrPop cond).jumps f.stack m.heap = false)
    (h : perform code i (.jumpIfOrPop cond) m = .ok () m') :
    ∃ f', m'.frames = f' :: below ∧ (f'.stack.length : Int) = f.stack.length + -1 := by
  obtain ⟨t, m₁, h₁, h⟩ := bind_ok_iff.mp h
  rw [(operand_ok h₁).2] at h
  obtain ⟨hp, m₂, h₂, h⟩ := bind_ok_iff.mp h
  cases h₂
  obtain ⟨v, m₃, h₃, h⟩ := bind_ok_iff.mp h
  obtain ⟨⟨vs, hvs⟩, rfl⟩ := peek_ok hf h₃
  rw [hvs] at hjump
  split at h
  next htruth => exact absurd htruth (beq_eq_false_iff_ne.mp hjump)
  next => exact discardPop_grows _ _ _ _ _ hf h

lemma forIter_grown {exit : Nat} (hf : m.frames = f :: below)
    (hjump : Opcode.forIter.jumps f.stack m.heap = false) (h : forIter exit m = .ok () m') :
    ∃ f', m'.frames = f' :: below ∧ (f'.stack.length : Int) = f.stack.length + 1 := by
  obtain ⟨v, m₁, h₁, h⟩ := bind_ok_iff.mp h
  obtain ⟨⟨vs, hvs⟩, rfl⟩ := peek_ok hf h₁
  rw [hvs] at hjump
  cases v with
  | iter r =>
      obtain ⟨hp, m₂, h₂, h⟩ := bind_ok_iff.mp h
      cases h₂
      obtain ⟨item, m₃, h₃, h⟩ := bind_ok_iff.mp h
      obtain ⟨hp, hnext, hm₃⟩ := lift_ok_iff.mp h₃
      have hf₃ : m₃.frames = f :: below := by
        rw [hm₃]
        exact hf
      cases item with
      | none =>
          simp only [Opcode.jumps, hnext] at hjump
          cases hjump
      | some item =>
          exact ((lift_grows (Eval.setIter r item.2)).bind fun _ => push_grows item.1) _ _ _ _ _
            hf₃ h
  | _ => cases h

/-- What is called at once takes the callable and the arguments and gives a value. -/
lemma callFunction_grown {arg : Nat} (hf : m.frames = f :: below)
    (h : callFunction arg m = .ok () m') (hlength : m'.frames.length = m.frames.length) :
    ∃ f', m'.frames = f' :: below ∧
      (f'.stack.length : Int) = f.stack.length - argumentCount arg := by
  obtain ⟨pairs, m₁, h₁, h⟩ := bind_ok_iff.mp h
  obtain ⟨f₁, hf₁, hl₁⟩ := popN_grows _ _ _ _ _ _ hf h₁
  obtain ⟨keywords, m₂, h₂, h⟩ := bind_ok_iff.mp h
  rw [(ofExcept_ok h₂).2] at h
  obtain ⟨positional, m₃, h₃, h⟩ := bind_ok_iff.mp h
  obtain ⟨f₃, hf₃, hl₃⟩ := popN_grows _ _ _ _ _ _ hf₁ h₃
  obtain ⟨v, m₄, h₄, h⟩ := bind_ok_iff.mp h
  obtain ⟨f₄, hf₄, hl₄⟩ := pop_grows _ _ _ _ _ hf₃ h₄
  have hrest : ∀ x : Exec Unit, Grows 1 x → x m₄ = .ok () m' → ∃ f', m'.frames = f' :: below ∧
      (f'.stack.length : Int) = f.stack.length - argumentCount arg := by
    intro x hx hx'
    obtain ⟨f', hf', hl'⟩ := hx _ _ _ _ _ hf₄ hx'
    refine ⟨f', hf', ?_⟩
    simp only [argumentCount, splitCounts] at hl₁ hl₃ ⊢
    omega
  cases v with
  | function r =>
      obtain ⟨hp, m₅, h₅, h⟩ := bind_ok_iff.mp h
      cases h₅
      -- the frame of the function would be one more
      obtain ⟨_, callee, _, _, -, -, hframes, -⟩ := enterFunction_ok hf₄ h
      rw [hframes, hf] at hlength
      simp at hlength
  | builtin b =>
      exact hrest _ ((lift_grows _).bind fun _ => (put_grows _).bind fun _ => push_grows _) h
  | excClass c => exact hrest _ ((lift_grows _).bind fun _ => push_grows _) h
  | _ => cases h

/-- An instruction that is done at once, without a signal and a conditional jump, lets the
stack grow by its effect. -/
lemma perform_grown {code : CodeObject} {i : Instruction} {op : Opcode}
    (hf : m.frames = f :: below) (hexcept : op ≠ .popExcept)
    (hjump : op.jumps f.stack m.heap = false) (h : perform code i op m = .ok () m')
    (hlength : m'.frames.length = m.frames.length) :
    ∃ f', m'.frames = f' :: below ∧
      (f'.stack.length : Int) = f.stack.length + op.netEffect i.arg := by
  rcases perform_grows code i op with hgrows | ⟨cond, rfl⟩ | rfl | rfl | rfl
  · exact hgrows _ _ _ _ _ hf h
  · exact jumpIfOrPop_grown hf hjump h
  · obtain ⟨t, m₁, h₁, h⟩ := bind_ok_iff.mp h
    rw [(operand_ok h₁).2] at h
    exact forIter_grown hf hjump h
  · obtain ⟨f', hf', hl'⟩ := callFunction_grown hf h hlength
    exact ⟨f', hf', hl'⟩
  · exact absurd rfl hexcept

/-- Raising always asks for a signal. -/
lemma raiseVarargs_ne_none (count : Nat) : raiseVarargs count m ≠ .ok none m' := by
  intro h
  match count with
  | 0 =>
      obtain ⟨m₁, m₂, -, h⟩ := bind_ok_iff.mp h
      cases hr : m₁.frames.findSome? Frame.handled? with
      | none =>
          rw [hr] at h
          cases h
      | some r =>
          rw [hr] at h
          cases h
  | 1 =>
      obtain ⟨v, m₁, -, h⟩ := bind_ok_iff.mp h
      obtain ⟨e, m₂, -, h⟩ := bind_ok_iff.mp h
      cases h
  | 2 =>
      obtain ⟨arg, m₁, -, h⟩ := bind_ok_iff.mp h
      obtain ⟨v, m₂, -, h⟩ := bind_ok_iff.mp h
      obtain ⟨e, m₃, -, h⟩ := bind_ok_iff.mp h
      cases h
  | n + 3 => cases h

/-- Only an instruction that ends a handler may be done without a signal in another way. -/
lemma perform_of_executeOp {code : CodeObject} {i : Instruction} {op : Opcode}
    (hop : op ≠ .endFinally) (h : executeOp code i op m = .ok none m') :
    perform code i op m = .ok () m' := by
  have plain : (perform code i op >>= fun _ => pure none : Exec (Option Signal)) m = .ok none m' →
      perform code i op m = .ok () m' := by
    intro h'
    obtain ⟨u, m₁, h₁, h'⟩ := bind_ok_iff.mp h'
    cases h'
    exact h₁
  cases op with
  | endFinally => exact absurd rfl hop
  | breakLoop => cases h
  | continueLoop =>
      obtain ⟨t, m₁, -, h⟩ := bind_ok_iff.mp h
      cases h
  | returnValue =>
      obtain ⟨v, m₁, -, h⟩ := bind_ok_iff.mp h
      cases h
  | raiseVarargs => exact absurd h (raiseVarargs_ne_none _)
  | _ => exact plain h

end Exec

/-! ### Runs of instructions -/

/-- The declared change of the stack of an instruction. -/
def Instruction.stackEffect (i : Instruction) : Int :=
  (i.opcode.map fun op => op.stackEffect i.arg).getD 0

namespace Moment

/-- The instruction that is to be executed. -/
def instruction? : Moment → Option Instruction
  | .stepping l => l.machine.frames.head?.bind fun f => (f.code.code.decode f.ip).toOption
  | _ => none

/-- The operands of the current frame. -/
def operands (x : Moment) : List Value :=
  (x.frames.head?.map Frame.stack).getD []

/-- The instruction `i`, to be executed at `x`, is done at `y` without a signal: there the
frame that executes it goes on, and has not been the current one since. So a call of a
function is done once the function has returned and its value is pushed. -/
structure Completes (x : Moment) (i : Instruction) (y : Moment) : Prop where
  decoded : x.instruction? = some i
  since : ∃ n, next^[n + 1] x = y ∧ ∀ k < n, x.frames.length < (next^[k + 1] x).frames.length
  goes : ∃ l, y = .stepping l
  frames : y.frames.length = x.frames.length

/-- An instruction whose effect on the stack is declared exactly is done: it ends no handler,
its argument is not clamped, and it takes no conditional jump. -/
structure FallsThrough (x : Moment) (i : Instruction) (y : Moment) : Prop where
  completes : x.Completes i y
  opcode : ∃ op, i.opcode = some op ∧ op ≠ .endFinally ∧ op ≠ .popExcept ∧
    op.jumps x.operands x.machine.heap = false
  arg : i.arg < 2 ^ 31

/-- Such instructions are done one after the other. -/
inductive FallsThroughAll : Moment → List Instruction → Moment → Prop where
  | nil (x : Moment) : FallsThroughAll x [] x
  | cons {x y z : Moment} {i : Instruction} {is : List Instruction} (first : x.FallsThrough i y)
      (rest : FallsThroughAll y is z) : FallsThroughAll x (i :: is) z

variable {x y : Moment} {l l' : Loop} {f : Frame} {below : List Frame} {i : Instruction}

lemma exists_of_instruction? (h : x.instruction? = some i) :
    ∃ l f below, x = .stepping l ∧ l.machine.frames = f :: below ∧
      f.code.code.decode f.ip = .ok i := by
  cases x with
  | stepping l =>
      cases hf : l.machine.frames with
      | nil =>
          rw [instruction?, hf] at h
          cases h
      | cons f below =>
          rw [instruction?, hf] at h
          refine ⟨l, f, below, rfl, hf, ?_⟩
          cases hd : f.code.code.decode f.ip with
          | error e =>
              simp only [List.head?_cons, Option.bind_some, hd] at h
              cases h
          | ok j =>
              simp only [List.head?_cons, Option.bind_some, hd] at h
              cases h
              rfl
  | _ => cases h

/-- An instruction after which the next one follows has succeeded. -/
lemma execute_of_next_stepping (h : l.InFrame f below) (hd : f.code.code.decode f.ip = .ok i)
    (hnext : next (.stepping l) = .stepping l') :
    Exec.execute l.code i (l.fetched i) = .ok none l'.machine := by
  rw [next_stepping_decoded h.frames (h.code ▸ hd), Machine.dispatch] at hnext
  cases hx : Exec.execute l.code i (l.fetched i) with
  | error e m =>
      rw [hx] at hnext
      cases hnext
  | ok s m =>
      rw [hx] at hnext
      cases s with
      | some s => cases hnext
      | none =>
          dsimp only [Loop.resume] at hnext
          split at hnext
          · cases hnext
            rfl
          · cases hf : m.frames with
            | nil =>
                rw [Loop.enter, hf] at hnext
                cases hnext
            | cons g gs =>
                rw [Loop.enter_of_cons hf] at hnext
                cases hnext
                rfl

/-- Only a call lets the number of frames grow, and the callee starts at once. -/
lemma Transition.stepping_of_length_lt (h : Transition (.stepping l) y)
    (hlt : l.machine.frames.length < y.frames.length) :
    ∃ l', y = .stepping l' ∧ l'.machine.frames.length = l.machine.frames.length + 1 := by
  cases h with
  | undecodable inside _ frames _ =>
      rw [inside.frames] at hlt
      exact absurd (congrArg List.length frames) (Nat.ne_of_gt hlt)
  | failed inside _ inside' _ =>
      rw [inside.frames] at hlt
      exact absurd (congrArg List.length inside'.frames) (Nat.ne_of_gt hlt)
  | signalled inside _ _ inside' =>
      rw [inside.frames] at hlt
      exact absurd (congrArg List.length inside'.frames) (Nat.ne_of_gt hlt)
  | @executed _ l' _ _ _ _ _ inside _ effect _ =>
      refine ⟨l', rfl, ?_⟩
      rw [inside.frames] at hlt ⊢
      rcases effect.frames_cases with ⟨f', hf', -⟩ | ⟨-, -, _, _, _, _, _, -, -, hf'⟩
      · exact absurd (congrArg List.length hf') (Nat.ne_of_gt hlt)
      · exact congrArg List.length hf'

/-- An instruction is done at once, or it has called a function and is done when that has
returned. -/
lemma Completes.cases (h : Reachable (.stepping l)) (hc : (Moment.stepping l).Completes i y) :
    next (.stepping l) = y ∨
      ∃ l' n, next (.stepping l) = .stepping l' ∧
        l'.machine.frames.length = l.machine.frames.length + 1 ∧
        next^[n + 1] (.stepping l') = y ∧
        ∀ k ≤ n, l.machine.frames.length < (next^[k] (.stepping l')).frames.length := by
  obtain ⟨n, hy, habove⟩ := hc.since
  cases n with
  | zero => exact .inl hy
  | succ n =>
      obtain ⟨l', hl', hlength⟩ := h.transition.stepping_of_length_lt (habove 0 n.succ_pos)
      rw [Function.iterate_succ_apply, hl'] at hy
      refine .inr ⟨l', n, hl', hlength, hy, ?_⟩
      intro k hk
      have hlt := habove k (Nat.lt_succ_of_le hk)
      rwa [Function.iterate_succ_apply, hl'] at hlt

/-- The instruction that is done at once lets the stack grow as declared. -/
lemma FallsThrough.grown_at_once (h : Reachable (.stepping l))
    (hfalls : (Moment.stepping l).FallsThrough i y) (hy : next (.stepping l) = y)
    (hf : l.machine.frames = f :: below) :
    ∃ f', y.frames = f' :: below ∧ f.Continues f' ∧
      (f'.stack.length : Int) = f.stack.length + i.stackEffect := by
  obtain ⟨l', rfl⟩ := hfalls.completes.goes
  obtain ⟨op, hop, hend, hexcept, hjump⟩ := hfalls.opcode
  have ht := h.transition
  rw [hy] at ht
  cases ht with
  | executed inside decoded effect _ =>
      rw [inside.frames] at hf
      cases hf
      obtain ⟨_, _, _, heq, hf, hd⟩ := exists_of_instruction? hfalls.completes.decoded
      cases heq
      rw [inside.frames] at hf
      cases hf
      rw [decoded] at hd
      cases hd
      have hrun := execute_of_next_stepping inside decoded hy
      rw [Exec.execute, hop] at hrun
      have hoperands : (Moment.stepping l).operands = f.stack := by
        rw [operands, frames, machine, inside.frames]
        rfl
      rw [hoperands] at hjump
      have hlength : l'.machine.frames.length = (l.fetched i).frames.length := by
        have hsame : l'.machine.frames.length = l.machine.frames.length := hfalls.completes.frames
        rw [hsame, inside.frames, inside.frames_fetched, List.length_cons, List.length_cons]
      obtain ⟨f', hf', hgrown⟩ := Exec.perform_grown (inside.frames_fetched i) hexcept hjump
        (Exec.perform_of_executeOp hend hrun) hlength
      rw [Opcode.netEffect_eq hfalls.arg] at hgrown
      refine ⟨f', hf', ?_, ?_⟩
      · rcases effect.frames_cases with ⟨f'', hf'', hcont⟩ | ⟨-, -, _, _, _, _, _, -, -, hf''⟩
        · rw [hf'] at hf''
          cases hf''
          exact (Frame.Continues.fetched f i).trans hcont
        · rw [hf'] at hf''
          exact absurd (congrArg List.length hf'') (by simp)
      · rw [hgrown, Instruction.stackEffect, hop]
        rfl

/-- A frame that ends is one less. -/
lemma length_next_leaving {m : Machine} {s : Signal} (h : Reachable (.leaving m s)) :
    (next (.leaving m s)).frames.length + 1 = m.frames.length := by
  have ht := h.transition
  generalize next (.leaving m s) = z at ht
  cases ht with
  | returned frames _ inside' _ =>
      rw [frames, List.length_cons, List.length_cons]
      exact congrArg (List.length · + 1) inside'.frames
  | raised frames _ inside' _ =>
      rw [frames]
      exact congrArg (List.length · + 1) inside'.frames
  | finished frames _ frames' =>
      rw [frames]
      exact congrArg (List.length · + 1) frames'

/-- Only where a frame ends the frames get fewer. -/
lemma Reachable.leaving_of_length_lt (h : Reachable x)
    (hlt : x.next.frames.length < x.frames.length) : ∃ m s, x = .leaving m s := by
  cases h.transition.frameStep h.current with
  | goes before after _ =>
      rw [before, after] at hlt
      exact absurd hlt (Nat.lt_irrefl _)
  | calls before after _ =>
      rw [before, after, List.length_cons, List.length_cons, List.length_cons] at hlt
      omega
  | ends leaving => exact leaving
  | last leaving => exact leaving
  | gone before =>
      rw [before] at hlt
      cases hlt

/-- While there are more frames than those of the caller, the callee does not end. -/
lemma not_ends_of_above {n depth : Nat} (h : Reachable x)
    (habove : ∀ k ≤ n, depth < (next^[k] x).frames.length) :
    ∀ k < n, ¬ (next^[k] x).Ends depth := by
  intro k hk hends
  have hlt := habove (k + 1) hk
  have hreach := reachable_iterate h k
  rw [Function.iterate_succ_apply'] at hlt
  cases hz : next^[k] x with
  | leaving m s =>
      rw [hz] at hends hlt hreach
      have hlength : m.frames.length = depth + 1 := hends
      have := length_next_leaving hreach
      omega
  | _ =>
      rw [hz] at hends
      exact hends

/-- A call of a function that has returned has let the stack grow as declared. -/
lemma grown_by_call {n : Nat} (h : Reachable (.stepping l)) (hf : l.machine.frames = f :: below)
    (hd : f.code.code.decode f.ip = .ok i) (harg : i.arg < 2 ^ 31)
    (hnext : next (.stepping l) = .stepping l')
    (henter : l'.machine.frames.length = l.machine.frames.length + 1)
    (habove : ∀ k ≤ n, l.machine.frames.length < (next^[k] (.stepping l')).frames.length)
    (hgoes : ∃ l'', next^[n + 1] (.stepping l') = .stepping l'')
    (hback : (next^[n + 1] (.stepping l')).frames.length = l.machine.frames.length) :
    ∃ f', (next^[n + 1] (.stepping l')).frames = f' :: below ∧ f.Continues f' ∧
      (f'.stack.length : Int) = f.stack.length + i.stackEffect := by
  have ht := h.transition
  rw [hnext] at ht
  obtain ⟨j, r, callee, hj, hop, hcallable, -, -, -, -, hf'⟩ := ht.enters hf henter
  rw [hd] at hj
  cases hj
  have hreach : Reachable (.stepping l') := hnext ▸ h.next
  have hinit : (Moment.stepping l').frames = [] ++ callee :: _ :: below := hf'
  rw [hf] at habove hback
  obtain ⟨newer, callee', hfn, -⟩ :=
    iterate_frames_persist hreach hinit n (not_ends_of_above hreach habove)
  -- the callee ends just before, since then the frames get fewer
  have hlast := reachable_iterate hreach n
  rw [Function.iterate_succ_apply'] at hgoes hback ⊢
  obtain ⟨m, s, hm⟩ := hlast.leaving_of_length_lt (by rw [hback]; exact habove n (Nat.le_refl n))
  rw [hm] at hfn hlast hgoes hback ⊢
  have hframes : m.frames = newer ++ callee' :: _ :: below := hfn
  have hnewer : newer = [] := by
    have hless := length_next_leaving hlast
    rw [hback, hframes, List.length_append, List.length_cons, List.length_cons,
      List.length_cons] at hless
    exact List.length_eq_zero_iff.mp (by omega)
  rw [hnewer] at hframes
  rcases next_leaving_callee hlast hframes with ⟨v, l'', -, hv, hin⟩ | ⟨_, l'', -, hraised, -⟩
  · rw [hv]
    refine ⟨_, hin.frames, ⟨rfl, rfl, rfl, rfl, rfl⟩, ?_⟩
    obtain ⟨hlt, -⟩ := List.getElem?_eq_some_iff.mp hcallable
    simp only [Frame.push, List.length_cons, List.length_drop, Instruction.stackEffect, hop,
      Option.map_some, Option.getD_some, Opcode.stackEffect, Exec.argumentCount,
      Exec.splitCounts] at hlt ⊢
    omega
  · obtain ⟨_, hgo⟩ := hgoes
    rw [hraised] at hgo
    cases hgo

/-- **An instruction** that is done without a signal, and takes no conditional jump, lets the
stack grow as declared. -/
lemma FallsThrough.grown (h : Reachable x) (hfalls : x.FallsThrough i y)
    (hf : x.frames = f :: below) :
    ∃ f', y.frames = f' :: below ∧ f.Continues f' ∧
      (f'.stack.length : Int) = f.stack.length + i.stackEffect := by
  obtain ⟨l, f₀, below₀, rfl, hf₀, hd⟩ := exists_of_instruction? hfalls.completes.decoded
  obtain ⟨rfl, rfl⟩ : f = f₀ ∧ below = below₀ := List.cons.inj (hf.symm.trans hf₀)
  rcases hfalls.completes.cases h with hy | ⟨l', n, hnext, henter, rfl, habove⟩
  · exact hfalls.grown_at_once h hy hf
  · exact grown_by_call h hf hd hfalls.arg hnext henter habove hfalls.completes.goes
      hfalls.completes.frames

lemma Completes.reachable (h : Reachable x) (hc : x.Completes i y) : Reachable y := by
  obtain ⟨n, rfl, -⟩ := hc.since
  exact reachable_iterate h (n + 1)

/-- In a row of such instructions the declared effects add up. -/
lemma FallsThroughAll.grown {is : List Instruction} (hall : x.FallsThroughAll is y)
    (h : Reachable x) (hf : x.frames = f :: below) :
    ∃ f', y.frames = f' :: below ∧ f.Continues f' ∧
      (f'.stack.length : Int) = f.stack.length + (is.map Instruction.stackEffect).sum := by
  induction hall generalizing f with
  | nil x => exact ⟨f, hf, .refl f, by simp⟩
  | cons first rest ih =>
      obtain ⟨f₁, hf₁, hcont₁, hlength₁⟩ := first.grown h hf
      obtain ⟨f₂, hf₂, hcont₂, hlength₂⟩ := ih (first.completes.reachable h) hf₁
      refine ⟨f₂, hf₂, hcont₁.trans hcont₂, ?_⟩
      rw [hlength₂, hlength₁, List.map_cons, List.sum_cons, Int.add_assoc]

end Moment

/-- **Declared stack effects match execution.** In every run, an instruction of a known
opcode that does not end a handler and whose argument is not clamped changes the depth of
the operand stack of its frame by its declared effect, if it is done without a signal and
takes no conditional jump; a call of a function is done once the value of the function has
been pushed. So over any row of such instructions the depth changes by the sum of their
effects. -/
theorem stack_effects_match_execution {x : Moment} {f : Frame} {below : List Frame}
    (h : Moment.Reachable x) (hf : x.frames = f :: below) :
    (∀ i op y, x.Completes i y → i.opcode = some op → op ≠ .endFinally → op ≠ .popExcept →
      i.arg < 2 ^ 31 → op.jumps f.stack x.machine.heap = false →
      ∃ f', y.frames = f' :: below ∧ f.Continues f' ∧
        (f'.stack.length : Int) = f.stack.length + op.stackEffect i.arg) ∧
    ∀ is y, x.FallsThroughAll is y →
      ∃ f', y.frames = f' :: below ∧ f.Continues f' ∧
        (f'.stack.length : Int) = f.stack.length + (is.map Instruction.stackEffect).sum := by
  refine ⟨?_, fun is y hall => hall.grown h hf⟩
  intro i op y hc hop hend hexcept harg hjump
  have hoperands : x.operands = f.stack := by
    rw [Moment.operands, hf]
    rfl
  have hfalls : x.FallsThrough i y := ⟨hc, ⟨op, hop, hend, hexcept, hoperands ▸ hjump⟩, harg⟩
  have hgrown := hfalls.grown h hf
  rwa [Instruction.stackEffect, hop] at hgrown

/-- A program calls a function with one argument, which it returns, and tests the value.
The call is done when the function has returned: the callable and the argument are replaced
by the value. The test takes that off, and does not jump. -/
theorem call_and_test_change_stack :
    let code : CodeObject :=
      ⟨default, { Code.empty "f" with
        bytecode := #[100, 0, 0, 132, 0, 0, 100, 1, 0, 131, 1, 0, 115, 0, 0]
        consts := #[.code { Code.empty "g" with
          bytecode := #[124, 0, 0, 83], varnames := #["x"], argCount := 1 }, .none] }⟩
    let x := Moment.next^[3] (.ofTurn (Machine.start { builtins := ⟨0⟩ } code none none))
    let y := Moment.next^[5] x
    ∃ f i j, Moment.Reachable x ∧ x.frames = [f] ∧
      (x.Completes i y ∧ i.opcode = some .callFunction ∧ i.arg = 1 ∧
        ∃ f', y.frames = [f'] ∧ (f'.stack.length : Int) = f.stack.length - 1) ∧
      x.FallsThroughAll [i, j] y.next ∧ j.opcode = some (.popJumpIf true) ∧
        ∃ f', y.next.frames = [f'] ∧ (f'.stack.length : Int) = f.stack.length - 2 := by
  intro code x y
  have hrun : (x.frames.length = 1 ∧
      x.instruction?.map (fun i => (i.opcode, i.arg)) = some (some .callFunction, 1) ∧
      ∀ k < 4, 1 < (Moment.next^[k + 1] x).frames.length) ∧
      ((∃ l, y = .stepping l) ∧ y.frames.length = 1 ∧
        y.instruction?.map (fun i => (i.opcode, i.arg)) = some (some (.popJumpIf true), 0) ∧
        (Opcode.popJumpIf true).jumps y.operands y.machine.heap = false) ∧
      (∃ l, y.next = .stepping l) ∧ y.next.frames.length = 1 := by
    decide +kernel +revert
  obtain ⟨⟨hx, hi, habove⟩, ⟨hgoes, hy, hj, hjump⟩, hgoes', hz⟩ := hrun
  obtain ⟨f, hf⟩ := List.length_eq_one_iff.mp hx
  obtain ⟨i, hix, hi⟩ := Option.map_eq_some_iff.mp hi
  obtain ⟨j, hjy, hj⟩ := Option.map_eq_some_iff.mp hj
  obtain ⟨hiop, hiarg⟩ := Prod.mk.inj hi
  obtain ⟨hjop, hjarg⟩ := Prod.mk.inj hj
  have hreach : Moment.Reachable x := Moment.reachable_iterate (.start _ code none none) 3
  have hcall : x.Completes i y := ⟨hix, ⟨4, rfl, by rwa [hx]⟩, hgoes, hy.trans hx.symm⟩
  have htest : y.Completes j y.next :=
    ⟨hjy, ⟨0, rfl, fun k hk => absurd hk (Nat.not_lt_zero k)⟩, hgoes', hz.trans hy.symm⟩
  have hall : x.FallsThroughAll [i, j] y.next :=
    .cons ⟨hcall, ⟨_, hiop, by decide, by decide, rfl⟩, by omega⟩
      (.cons ⟨htest, ⟨_, hjop, by decide, by decide, hjump⟩, by omega⟩ (.nil _))
  obtain ⟨hone, hrow⟩ := stack_effects_match_execution hreach hf
  obtain ⟨f', hf', -, hlength⟩ :=
    hone i _ y hcall hiop (by decide) (by decide) (by omega) rfl
  obtain ⟨f'', hf'', -, hlength'⟩ := hrow [i, j] y.next hall
  refine ⟨f, i, j, hreach, hf, ⟨hcall, hiop, hiarg, f', hf', ?_⟩, hall, hjop, f'', hf'', ?_⟩
  · rw [hlength, hiarg]
    rfl
  · rw [hlength']
    simp only [List.map_cons, List.map_nil, Instruction.stackEffect, hiop, hjop, hiarg, hjarg]
    rfl

end StackVM
