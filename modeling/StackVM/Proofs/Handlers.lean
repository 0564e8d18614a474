/-
What instructions do to the machine. An instruction that fails has popped operands of
the current frame at most, and has left the heap intact. One that succeeds changes the
operands and the next offset of the current frame, unless it is about blocks, calls or
signals.

* `Machine.Popped`: operands were popped and values evaluated, nothing else;
* `Machine.Moved`: the operands and the next offset of the current frame may differ;
* `Exec.Acts`: every failure is `Popped`, every result `Moved`;
* `Exec.perform_acts`: most instructions act so;
* `Exec.execute_failures`: every failed instruction has popped operands only;
* `failed_instruction_pops_only`: what that says of the whole machine.
-/
import StackVM.Proofs.Evaluation
import StackVM.Proofs.Operands

namespace StackVM

namespace Machine

/-! ### Popping and moving -/

/-- The machine `m'` is `m`, whose current frame is `f`, after operands were popped and
values evaluated. -/
structure PoppedFrom (f : Frame) (below : List Frame) (m m' : Machine) : Prop where
  frames : ∃ n, m'.frames = { f with stack := f.stack.drop n } :: below
  registers : m'.registers = m.registers
  limits : m'.limits = m.limits
  output : m'.output = m.output
  heap : m.heap.Intact m'.heap

/-- Operands of the current frame were popped and values evaluated. -/
def Popped (m m' : Machine) : Prop :=
  ∀ f below, m.frames = f :: below → PoppedFrom f below m m'

/-- The machine `m'` is `m`, whose current frame is `f`, with other operands, at the
same next offset or at `target`. -/
structure MovedFrom (target : Option Nat) (f : Frame) (below : List Frame) (m m' : Machine) :
    Prop where
  frames : ∃ stack ip, (ip = f.ip ∨ target = some ip) ∧ m'.frames = { f with stack, ip } :: below
  registers : m'.registers = m.registers
  limits : m'.limits = m.limits

/-- The operands of the current frame may differ, and its next offset may be `target`. -/
def Moved (target : Option Nat) (m m' : Machine) : Prop :=
  ∀ f below, m.frames = f :: below → MovedFrom target f below m m'

instance : IsPreorder Machine Popped where
  refl := by
    intro m f below hf
    exact ⟨⟨0, hf⟩, rfl, rfl, rfl, .refl _⟩
  trans := by
    intro m m' m'' h h' f below hf
    obtain ⟨⟨n, hn⟩, hr, hl, ho, hh⟩ := h f below hf
    obtain ⟨⟨k, hk⟩, hr', hl', ho', hh'⟩ := h' _ below hn
    refine ⟨⟨n + k, ?_⟩, hr'.trans hr, hl'.trans hl, ho'.trans ho, hh.trans hh'⟩
    rw [hk, List.drop_drop]

instance (target : Option Nat) : IsPreorder Machine (Moved target) where
  refl := by
    intro m f below hf
    exact ⟨⟨f.stack, f.ip, .inl rfl, hf⟩, rfl, rfl⟩
  trans := by
    intro m m' m'' h h' f below hf
    obtain ⟨⟨stack, ip, hip, hm⟩, hr, hl⟩ := h f below hf
    obtain ⟨⟨stack', ip', hip', hm'⟩, hr', hl'⟩ := h' _ below hm
    refine ⟨⟨stack', ip', ?_, hm'⟩, hr'.trans hr, hl'.trans hl⟩
    rcases hip' with rfl | hip'
    · exact hip
    · exact .inr hip'

/-- To pop operands is to move. -/
lemma Popped.moved {m m' : Machine} (h : Popped m m') (target : Option Nat) :
    Moved target m m' := by
  intro f below hf
  obtain ⟨⟨n, hn⟩, hr, hl, -, -⟩ := h f below hf
  exact ⟨⟨_, f.ip, .inl rfl, hn⟩, hr, hl⟩

end Machine

open Machine

namespace Exec

variable {α β : Type} {target : Option Nat}

/-- A failure has popped operands only; a result has moved the current frame. -/
structure Acts (target : Option Nat) (x : Exec α) : Prop where
  results : Results (Moved target) x
  failures : Failures Popped x

/-- A computation that does not fail while there is a current frame, which it moves. -/
structure Sure (target : Option Nat) (x : Exec α) : Prop where
  results : Results (Moved target) x
  failures : Failures (fun m _ => m.frames = []) x

/-- Popping operands is acting. -/
lemma acts_of_popped {x : Exec α} (hx : Outcomes Popped x) : Acts target x :=
  ⟨fun m a m' h => (hx.results m a m' h).moved target, hx.failures⟩

/-- What fails only without a current frame does nothing to one where it fails. -/
lemma failures_of_frameless {x : Exec α} (hx : Failures (fun m _ => m.frames = []) x) :
    Failures Popped x := by
  intro m e m' h f below hf
  rw [hx m e m' h] at hf
  cases hf

lemma Sure.acts {x : Exec α} (hx : Sure target x) : Acts target x :=
  ⟨hx.results, failures_of_frameless hx.failures⟩

/-- After operands have been popped anything may follow. -/
lemma Acts.bind {x : Exec α} {f : α → Exec β} (hx : Outcomes Popped x)
    (hf : ∀ a, Acts target (f a)) : Acts target (x >>= f) :=
  ⟨Results.bind (acts_of_popped hx).results fun a => (hf a).results,
    Failures.bind hx fun a => (hf a).failures⟩

/-- After a change has been made only what cannot fail may follow. -/
lemma Acts.bind_sure {x : Exec α} {f : α → Exec β} (hx : Acts target x)
    (hf : ∀ a, Sure target (f a)) : Acts target (x >>= f) := by
  refine ⟨Results.bind hx.results fun a => (hf a).results, ?_⟩
  intro m e m'' h
  rcases bind_error_iff.mp h with h₁ | ⟨a, m', h₁, h₂⟩
  · exact hx.failures m e m'' h₁
  · intro f below hm
    obtain ⟨⟨stack, ip, -, hm'⟩, -, -⟩ := hx.results m a m' h₁ f below hm
    rw [(hf a).failures m' e m'' h₂] at hm'
    cases hm'

/-! ### Operations on the current frame -/

lemma frame_popped : Outcomes Popped frame := by
  refine Outcomes.get.bind fun m => ?_
  split
  · exact .pure _
  · exact .throw _

lemma heap_popped : Outcomes Popped heap :=
  Outcomes.get.bind fun _ => .pure _

lemma ofExcept_popped (x : Except Cause α) : Outcomes Popped (ofExcept x) := by
  cases x with
  | ok a => exact .pure a
  | error c => exact .throw _

lemma peek_popped : Outcomes Popped peek := by
  refine frame_popped.bind fun f => ?_
  split
  · exact .pure _
  · exact .throw _

/-- The machine whose current frame has lost its topmost `n` operands. -/
lemma popped_withTop {m : Machine} {f : Frame} {below : List Frame} (hf : m.frames = f :: below)
    (n : Nat) : Popped m (m.withTop { f with stack := f.stack.drop n }) := by
  intro f' below' hf'
  rw [hf] at hf'
  cases hf'
  exact ⟨⟨n, frames_withTop hf _⟩, rfl, rfl, rfl, .refl _⟩

lemma pop_popped : Outcomes Popped pop := by
  refine ⟨?_, ?_⟩
  · intro m v m' h f below hf
    rw [pop_run hf] at h
    cases hs : f.stack with
    | nil =>
        rw [hs] at h
        cases h
    | cons w ws =>
        rw [hs] at h
        cases h
        have := popped_withTop hf 1 f below hf
        rwa [hs] at this
  · intro m e m' h f below hf
    rw [pop_run hf] at h
    cases hs : f.stack with
    | nil =>
        rw [hs] at h
        cases h
        exact refl (r := Popped) m f below hf
    | cons w ws =>
        rw [hs] at h
        cases h

lemma popN_popped (n : Nat) : Outcomes Popped (popN n) := by
  refine ⟨?_, ?_⟩
  · intro m vs m' h f below hf
    rw [popN_run hf] at h
    split at h
    · cases h
      exact popped_withTop hf n f below hf
    · cases h
  · intro m e m' h f below hf
    rw [popN_run hf] at h
    split at h
    · cases h
    · cases h
      exact refl (r := Popped) m f below hf

/-- An operation on values that leaves the heap intact where it fails. -/
lemma lift_failures {x : Eval α} (hx : Failures Heap.Intact x) :
    Failures Popped (liftM x : Exec α) := by
  intro m e m' h f below hf
  obtain ⟨c, h', hh, -, rfl⟩ := lift_error_iff.mp h
  exact ⟨⟨0, hf⟩, rfl, rfl, rfl, hx _ _ _ hh⟩

/-- An operation on values that leaves the heap intact. -/
lemma lift_popped {x : Eval α} (hx : Outcomes Heap.Intact x) :
    Outcomes Popped (liftM x : Exec α) := by
  refine ⟨?_, lift_failures hx.failures⟩
  intro m a m' h f below hf
  obtain ⟨h', hh, rfl⟩ := lift_ok_iff.mp h
  exact ⟨⟨0, hf⟩, rfl, rfl, rfl, hx.results _ _ _ hh⟩

/-- An operation on values never touches the frames. -/
lemma lift_acts {x : Eval α} (hx : Failures Heap.Intact x) :
    Acts target (liftM x : Exec α) := by
  refine ⟨?_, lift_failures hx⟩
  intro m a m' h f below hf
  obtain ⟨h', -, rfl⟩ := lift_ok_iff.mp h
  exact ⟨⟨f.stack, f.ip, .inl rfl, hf⟩, rfl, rfl⟩

/-- A change of the current frame fails only if there is none. -/
lemma modifyFrame_failures (g : Frame → Frame) :
    Failures (fun m _ => m.frames = []) (modifyFrame g) := by
  intro m e m' h
  cases hm : m.frames with
  | nil => rfl
  | cons f below =>
      rw [modifyFrame_run hm] at h
      cases h

/-- A change of operands, or of the next offset to the target. -/
lemma modifyFrame_sure {g : Frame → Frame}
    (hg : ∀ f, ∃ stack ip, (ip = f.ip ∨ target = some ip) ∧ g f = { f with stack, ip }) :
    Sure target (modifyFrame g) := by
  refine ⟨?_, modifyFrame_failures g⟩
  intro m u m' h f below hf
  rw [modifyFrame_run hf] at h
  cases h
  obtain ⟨stack, ip, hip, hgf⟩ := hg f
  exact ⟨⟨stack, ip, hip, by rw [frames_withTop hf, hgf]⟩, rfl, rfl⟩

lemma push_sure (v : Value) : Sure target (push v) :=
  modifyFrame_sure fun f => ⟨v :: f.stack, f.ip, .inl rfl, rfl⟩

lemma jump_sure (t : Nat) : Sure (some t) (jump t) :=
  modifyFrame_sure fun f => ⟨f.stack, t, .inr rfl, rfl⟩

lemma put_sure (os : List Output) : Sure target (put os) := by
  refine ⟨?_, .modifyGet _⟩
  intro m u m' h f below hf
  cases h
  exact ⟨⟨f.stack, f.ip, .inl rfl, hf⟩, rfl, rfl⟩

lemma operand_popped (i : Instruction) (found : Option α) : Outcomes Popped (operand i found) := by
  cases found with
  | none => exact .throw _
  | some a => exact .pure a

/-- Only an operand that the instruction has is used. -/
lemma Acts.operand_bind {i : Instruction} {found : Option α} {f : α → Exec β}
    (hf : ∀ a, found = some a → Acts target (f a)) : Acts target (operand i found >>= f) := by
  cases found with
  | none => exact acts_of_popped (.throw (Fault.internal (.unexpectedOperand i.offset)))
  | some a => exact hf a rfl

/-- A failure at once. -/
lemma fail_acts (c : Cause) : Acts target (fail c : Exec α) :=
  acts_of_popped (.throw _)

/-! ### Variables and cells -/

lemma loadVariable_acts (scope : Scope) (name : String) :
    Acts target (loadVariable scope name) := by
  refine Acts.bind frame_popped fun f => ?_
  refine Acts.bind heap_popped fun h => ?_
  split
  · exact (push_sure _).acts
  · exact fail_acts _

lemma storeVariable_acts (scope : Scope) (name : String) :
    Acts target (storeVariable scope name) := by
  refine Acts.bind pop_popped fun v => ?_
  refine Acts.bind frame_popped fun f => ?_
  exact lift_acts (.modifyGet _)

lemma deleteVariable_acts (scope : Scope) (name : String) :
    Acts target (deleteVariable scope name) := by
  refine Acts.bind frame_popped fun f => ?_
  refine Acts.bind heap_popped fun h => ?_
  split
  · exact lift_acts (.modifyGet _)
  · exact fail_acts _

lemma cellAt_popped (index : Nat) : Outcomes Popped (cellAt index) := by
  refine frame_popped.bind fun f => ?_
  split
  · exact .pure _
  · exact .throw _

lemma loadCell_acts (index : Nat) : Acts target (loadCell index) := by
  refine Acts.bind heap_popped fun h => ?_
  refine Acts.bind (cellAt_popped index) fun r => ?_
  split
  · exact (push_sure _).acts
  · refine Acts.bind frame_popped fun f => ?_
    split
    · exact fail_acts _
    · exact acts_of_popped (.throw _)

lemma storeCell_acts (index : Nat) : Acts target (storeCell index) := by
  refine Acts.bind pop_popped fun v => ?_
  refine Acts.bind (cellAt_popped index) fun r => ?_
  exact lift_acts (.modifyGet _)

/-! ### Stack and collections -/

lemma rotate_acts (n : Nat) : Acts target (rotate n) := by
  refine ⟨?_, ?_⟩
  · intro m u m' h f below hf
    rw [rotate_run hf, Frame.rotate?] at h
    by_cases hn : n ≤ f.stack.length
    · rw [if_pos hn] at h
      cases h
      exact ⟨⟨_, f.ip, .inl rfl, frames_withTop hf _⟩, rfl, rfl⟩
    · rw [if_neg hn] at h
      cases h
  · intro m e m' h f below hf
    rw [rotate_run hf, Frame.rotate?] at h
    by_cases hn : n ≤ f.stack.length
    · rw [if_pos hn] at h
      cases h
    · rw [if_neg hn] at h
      cases h
      exact refl (r := Popped) m f below hf

lemma storeMap_acts : Acts target storeMap := by
  refine Acts.bind pop_popped fun key => ?_
  refine Acts.bind pop_popped fun value => ?_
  refine Acts.bind peek_popped fun v => ?_
  cases v with
  | dict r => exact lift_acts (Value.setItem_failures _ key value)
  | _ => exact fail_acts _

lemma unpacked_popped (v : Value) : Outcomes Popped (unpacked v) := by
  cases v with
  | tuple ident items => exact .pure items
  | list r => exact heap_popped.bind fun h => .pure _
  | _ => exact (lift_popped (Value.collect_intact _)).bind fun items => .pure _

lemma unpackSequence_acts (count : Nat) : Acts target (unpackSequence count) := by
  refine Acts.bind pop_popped fun v => ?_
  refine Acts.bind (unpacked_popped v) fun items => ?_
  split
  · exact fail_acts _
  · split
    · exact fail_acts _
    · exact (modifyFrame_sure fun f => ⟨items ++ f.stack, f.ip, .inl rfl, rfl⟩).acts

lemma getIter_acts : Acts target getIter := by
  refine Acts.bind pop_popped fun v => ?_
  cases v with
  | iter r => exact (push_sure _).acts
  | _ =>
      refine Acts.bind (lift_popped (Value.iterator_intact _)) fun it => ?_
      refine Acts.bind (lift_popped (Eval.newIter_intact it)) fun w => ?_
      exact (push_sure w).acts

/-- An item is pushed after the iterator has been moved, which cannot fail. -/
lemma forIter_acts (exit : Nat) : Acts (some exit) (forIter exit) := by
  refine Acts.bind peek_popped fun v => ?_
  cases v with
  | iter r =>
      refine Acts.bind heap_popped fun h => ?_
      refine Acts.bind (lift_popped (Iter.next_intact _)) fun step => ?_
      cases step with
      | some step => exact (lift_acts (.modifyGet _)).bind_sure fun _ => push_sure step.1
      | none => exact Acts.bind (pop_popped.map _) fun _ => (jump_sure exit).acts
  | _ => exact fail_acts _

/-! ### Functions -/

lemma popClosure_popped (code : Code) : Outcomes Popped (popClosure code) := by
  refine pop_popped.bind fun v => ?_
  cases v with
  | tuple ident items =>
      refine (ofExcept_popped (cells items)).bind fun closure => ?_
      split
      · exact .pure _
      · exact .throw _
  | _ => exact .throw _

lemma pushFunction_acts (code : CodeObject) (arg : Nat) (closure : List (Ref .cell)) :
    Acts target (pushFunction code arg closure) := by
  refine Acts.bind (popN_popped _) fun pairs => ?_
  refine Acts.bind (ofExcept_popped _) fun kwdefaults => ?_
  refine Acts.bind (popN_popped _) fun defaults => ?_
  refine Acts.bind frame_popped fun f => ?_
  refine Acts.bind (lift_popped (Eval.newFunction_intact _)) fun v => ?_
  exact (push_sure v).acts

lemma makeFunction_acts (arg : Nat) (isClosure : Bool) :
    Acts target (makeFunction arg isClosure) := by
  refine Acts.bind pop_popped fun v => ?_
  cases v with
  | code code =>
      cases isClosure with
      | true => exact Acts.bind (popClosure_popped code.code) (pushFunction_acts code arg)
      | false => exact pushFunction_acts code arg []
  | _ => exact fail_acts _

/-- A frame that is not entered leaves nothing behind. -/
lemma enter_failures {R : Machine → Machine → Prop} [IsPreorder Machine R] (f : Frame) :
    Failures R (enter f) := by
  refine Failures.bind .get fun m => ?_
  refine Failures.bind .get fun m' => ?_
  split
  · exact (Outcomes.throw _).failures
  · exact .modifyGet _

/-- The arguments are bound and the frame is made before the limit is checked; both
make new objects only. -/
lemma enterFunction_failures (f : Function) (args : Args) :
    Failures Popped (enterFunction f args) := by
  refine Failures.bind (lift_popped (Signature.bind_intact _ _ _ _ args)) fun bound => ?_
  refine Failures.bind (lift_popped (Eval.newNamespace_intact _)) fun locals => ?_
  refine Failures.bind frame_popped fun caller => ?_
  refine Failures.bind (lift_popped (Frame.make_intact _ _ _ _ _)) fun callee => ?_
  exact enter_failures callee

/-- A builtin function puts out its text once it has succeeded. -/
lemma callBuiltin_acts (b : Builtin) (args : Args) :
    Acts target (do let (v, os) ← (liftM (b.call args) : Exec _); put os; push v) := by
  refine Acts.bind (lift_popped (Builtin.call_intact b args)) fun result => ?_
  exact Acts.bind_sure (put_sure result.2).acts fun _ => push_sure _

lemma callClass_acts (c : ExcClass) (args : Args) :
    Acts target (do let v ← (liftM (c.call args) : Exec _); push v) := by
  refine Acts.bind (lift_popped (ExcClass.call_intact c args)) fun v => ?_
  exact (push_sure v).acts

lemma callFunction_failures (arg : Nat) : Failures Popped (callFunction arg) := by
  refine Failures.bind (popN_popped _) fun pairs => ?_
  refine Failures.bind (ofExcept_popped _) fun keywords => ?_
  refine Failures.bind (popN_popped _) fun positional => ?_
  refine Failures.bind pop_popped fun v => ?_
  cases v with
  | function r => exact Failures.bind heap_popped fun h => enterFunction_failures _ _
  | builtin b => exact (callBuiltin_acts b _ : Acts none _).failures
  | excClass c => exact (callClass_acts c _ : Acts none _).failures
  | _ => exact (Outcomes.throw _).failures

/-! ### Blocks and signals -/

lemma popBlock_failures : Failures Popped popBlock := by
  intro m e m' h f below hf
  rw [popBlock_run hf] at h
  cases hb : f.blocks with
  | nil =>
      rw [hb] at h
      cases h
      exact refl (r := Popped) m f below hf
  | cons b rest =>
      rw [hb] at h
      cases h

/-- A block of another kind stays where it is. -/
lemma popCleanup_failures (op : String) : Failures Popped (popCleanup op) := by
  intro m e m' h f below hf
  rw [popCleanup_run hf] at h
  split at h
  · cases h
  · cases h
    exact refl (r := Popped) m f below hf

lemma endFinally_failures : Failures Popped endFinally := by
  refine (popCleanup_failures _).bind_of_never fun pending m e m' h => ?_
  cases pending <;> cases h

lemma instantiate_popped (v : Value) (arg : Option Value) :
    Outcomes Popped (instantiate v arg) := by
  cases v with
  | exception e => exact .pure e
  | excClass c =>
      refine (lift_popped (ExcClass.call_intact c _)).bind fun v => ?_
      cases v with
      | exception e => exact .pure e
      | _ => exact .throw _
  | _ => exact .throw _

/-- What is raised is made of popped operands. -/
lemma raiseVarargs_failures (count : Nat) : Failures Popped (raiseVarargs count) := by
  match count with
  | 0 =>
      refine Failures.bind .get fun m => ?_
      split
      · intro m e m' h
        cases h
      · exact (Outcomes.throw _).failures
  | 1 =>
      refine Failures.bind pop_popped fun v => ?_
      exact Failures.bind (instantiate_popped v none) fun e => (Outcomes.throw _).failures
  | 2 =>
      refine Failures.bind pop_popped fun arg => ?_
      refine Failures.bind pop_popped fun v => ?_
      exact Failures.bind (instantiate_popped v _) fun e => (Outcomes.throw _).failures
  | n + 3 => exact (Outcomes.throw _).failures

/-! ### Instructions -/

/-- An instruction that asks for no signal acts on the operands, unless it is about
blocks or calls. -/
lemma perform_acts (code : CodeObject) (i : Instruction) (op : Opcode) :
    Acts i.operand.target? (perform code i op) ∨
      (∃ block, op = .setup block) ∨ op = .popBlock ∨ op = .popExcept ∨ op = .callFunction := by
  cases op with
  | setup block => exact .inr (.inl ⟨block, rfl⟩)
  | popBlock => exact .inr (.inr (.inl rfl))
  | popExcept => exact .inr (.inr (.inr (.inl rfl)))
  | callFunction => exact .inr (.inr (.inr (.inr rfl)))
  | nop => exact .inl (acts_of_popped (.pure _))
  | popTop => exact .inl (acts_of_popped (pop_popped.map _))
  | dupTop => exact .inl (Acts.bind peek_popped fun v => (push_sure v).acts)
  | rotTwo => exact .inl (rotate_acts 2)
  | rotThree => exact .inl (rotate_acts 3)
  | rotFour => exact .inl (rotate_acts 4)
  | unary op =>
      refine .inl (Acts.bind pop_popped fun v => ?_)
      exact Acts.bind (lift_popped (Value.unary_intact op v)) fun w => (push_sure w).acts
  | binary op =>
      cases op with
      | arith op =>
          refine .inl (Acts.bind pop_popped fun r => Acts.bind pop_popped fun l => ?_)
          exact Acts.bind (lift_popped (Value.binary_intact op l r)) fun w => (push_sure w).acts
      | subscr =>
          refine .inl (Acts.bind pop_popped fun key => Acts.bind pop_popped fun v => ?_)
          exact Acts.bind (lift_popped (Value.getItem_intact v key)) fun w => (push_sure w).acts
      | matrixMultiply => exact .inl (fail_acts _)
  | inplace op =>
      refine .inl (Acts.bind pop_popped fun r => Acts.bind pop_popped fun l => ?_)
      exact (lift_acts (Value.inplace_failures op l r)).bind_sure fun w => push_sure w
  | compare =>
      refine .inl (Acts.operand_bind fun op _ => ?_)
      refine Acts.bind pop_popped fun r => Acts.bind pop_popped fun l => ?_
      exact Acts.bind (lift_popped (Value.compareOp_intact op l r)) fun b => (push_sure _).acts
  | loadConst =>
      refine .inl (Acts.operand_bind fun c _ => ?_)
      exact Acts.bind (lift_popped (Const.load_intact _ _ c)) fun v => (push_sure v).acts
  | load scope => exact .inl (Acts.operand_bind fun name _ => loadVariable_acts scope name)
  | store scope => exact .inl (Acts.operand_bind fun name _ => storeVariable_acts scope name)
  | delete scope => exact .inl (Acts.operand_bind fun name _ => deleteVariable_acts scope name)
  | loadClosure =>
      refine .inl (Acts.operand_bind fun index _ => ?_)
      exact Acts.bind (cellAt_popped index) fun r => (push_sure _).acts
  | loadDeref => exact .inl (Acts.operand_bind fun index _ => loadCell_acts index)
  | storeDeref => exact .inl (Acts.operand_bind fun index _ => storeCell_acts index)
  | buildTuple =>
      refine .inl (Acts.bind (popN_popped _) fun items => ?_)
      exact Acts.bind (lift_popped (Eval.newTuple_intact items)) fun v => (push_sure v).acts
  | buildList =>
      refine .inl (Acts.bind (popN_popped _) fun items => ?_)
      exact Acts.bind (lift_popped (Eval.newList_intact _)) fun v => (push_sure v).acts
  | buildMap =>
      exact .inl (Acts.bind (lift_popped (Eval.newDict_intact _)) fun v => (push_sure v).acts)
  | storeMap => exact .inl storeMap_acts
  | storeSubscr =>
      refine .inl (Acts.bind pop_popped fun key => Acts.bind pop_popped fun v => ?_)
      exact Acts.bind pop_popped fun value => lift_acts (Value.setItem_failures v key value)
  | deleteSubscr =>
      refine .inl (Acts.bind pop_popped fun key => Acts.bind pop_popped fun v => ?_)
      exact lift_acts (Value.deleteItem_failures v key)
  | unpackSequence => exact .inl (unpackSequence_acts _)
  | getIter => exact .inl getIter_acts
  | forIter =>
      refine .inl (Acts.operand_bind fun exit h => ?_)
      rw [h]
      exact forIter_acts exit
  | jumpForward =>
      refine .inl (Acts.operand_bind fun t h => ?_)
      rw [h]
      exact (jump_sure t).acts
  | jumpAbsolute =>
      refine .inl (Acts.operand_bind fun t h => ?_)
      rw [h]
      exact (jump_sure t).acts
  | popJumpIf cond =>
      refine .inl (Acts.operand_bind fun t h => ?_)
      rw [h]
      refine Acts.bind pop_popped fun v => Acts.bind heap_popped fun hp => ?_
      split
      · exact (jump_sure t).acts
      · exact acts_of_popped (.pure _)
  | jumpIfOrPop cond =>
      refine .inl (Acts.operand_bind fun t h => ?_)
      rw [h]
      refine Acts.bind heap_popped fun hp => Acts.bind peek_popped fun v => ?_
      split
      · exact (jump_sure t).acts
      · exact acts_of_popped (pop_popped.map _)
  | makeFunction => exact .inl (makeFunction_acts _ false)
  | makeClosure => exact .inl (makeFunction_acts _ true)
  | _ => exact .inl (fail_acts _)

lemma perform_failures (code : CodeObject) (i : Instruction) (op : Opcode) :
    Failures Popped (perform code i op) := by
  rcases perform_acts code i op with h | ⟨block, rfl⟩ | rfl | rfl | rfl
  · exact h.failures
  · exact Failures.bind (operand_popped i _) fun t =>
      failures_of_frameless (modifyFrame_failures _)
  · exact popBlock_failures
  · exact (popCleanup_failures _).map _
  · exact callFunction_failures _

lemma executeOp_failures (code : CodeObject) (i : Instruction) (op : Opcode) :
    Failures Popped (executeOp code i op) := by
  have plain : Failures Popped (perform code i op >>= fun _ => pure none : Exec (Option Signal)) :=
    (perform_failures code i op).bind_of_never fun _ m e m' h => by cases h
  cases op with
  | endFinally => exact endFinally_failures
  | breakLoop => exact (Outcomes.pure _).failures
  | continueLoop => exact Failures.bind (operand_popped i _) fun t => (Outcomes.pure _).failures
  | returnValue =>
      refine Failures.bind pop_popped fun v => ?_
      intro m e m' h
      cases h
  | raiseVarargs => exact raiseVarargs_failures _
  | _ => exact plain

/-- An instruction that fails has popped operands at most. -/
lemma execute_failures (code : CodeObject) (i : Instruction) :
    Failures Popped (execute code i) := by
  rw [execute]
  split
  · exact executeOp_failures code i _
  · exact (Outcomes.throw _).failures

end Exec

/-- **A failed instruction** leaves the machine as it was, but for operands that it has
popped: the blocks of the current frame and everything else about it, the frames below,
the registers, the output and the objects of the heap. Only iterators may have
advanced. -/
theorem failed_instruction_pops_only {code : CodeObject} {i : Instruction} {m m' : Machine}
    {e : Fault} {f : Frame} {below : List Frame} (hf : m.frames = f :: below)
    (h : Exec.execute code i m = .error e m') :
    (∃ stack, stack <:+ f.stack ∧ m'.frames = { f with stack } :: below) ∧
    m'.frames.length = m.frames.length ∧
    m'.registers = m.registers ∧
    m'.output = m.output ∧
    m.heap.lists.Extends m'.heap.lists ∧
    m.heap.dicts.Extends m'.heap.dicts ∧
    m.heap.cells.Extends m'.heap.cells ∧
    m.heap.namespaces.Extends m'.heap.namespaces ∧
    m.heap.functions.Extends m'.heap.functions ∧
    ∀ r it, m.heap.iters.get? r = some it →
      ∃ it', m'.heap.iters.get? r = some it' ∧ it.Advances it' := by
  obtain ⟨⟨n, hn⟩, hr, -, ho, hh⟩ := Exec.execute_failures code i m e m' h f below hf
  refine ⟨⟨f.stack.drop n, List.drop_suffix n f.stack, hn⟩, ?_, hr, ho, hh.lists, hh.dicts,
    hh.cells, hh.namespaces, hh.functions, hh.iters⟩
  rw [hn, hf, List.length_cons, List.length_cons]

/-- An iterator with one item is to be unpacked into three: the iterator has been popped
and used up, and the value under it is still there. -/
theorem failed_unpacking_pops_only :
    let f : Frame :=
      { code := default, locals := ⟨0⟩, globals := ⟨0⟩, builtins := ⟨0⟩, cells := []
        stack := [.iter ⟨0⟩, .none] }
    let m : Machine :=
      { builtins := ⟨0⟩, calls := CallStack.empty.push f
        heap := { iters := ⟨#[.tuple #[.none] 0]⟩ } }
    let i : Instruction :=
      { offset := 0, next := 3, byte := 92, opcode := some .unpackSequence, operand := .int 3
        arg := 3 }
    m.frames = [f] ∧
    ∃ m', Exec.execute default i m = .error (.cause (.unpackTooFew 3 1)) m' ∧
      (∃ stack, stack <:+ f.stack ∧ m'.frames = [{ f with stack }]) ∧ m'.output = m.output ∧
      m'.heap.iters.get? ⟨0⟩ = some (.tuple #[.none] 1) := by
  intro f m i
  have h := @failed_instruction_pops_only default i m _ _ f [] rfl rfl
  exact ⟨rfl, _, rfl, h.1, h.2.2.2.1, rfl⟩

end StackVM
