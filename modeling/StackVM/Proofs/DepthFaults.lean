/-
What instructions fail for. Only one thing that an instruction does depends on the number of active
frames: the entering of one more. So an instruction that fails for the depth of calls is a call, and
there are as many frames as the limit allows.

* `Fault.Flat`: a fault of the machine other than the depth of calls;
* `Exec.executeOp_flat`: instructions other than calls and raises;
* `Exec.raiseVarargs_flat`: a raise, whose fault can be an instance of the program;
* `Exec.callFunction_flat`: calls;
* `Exec.execute_flat`: **all instructions**.
-/
import StackVM.Proofs.DepthCauses
import StackVM.Proofs.Effect

namespace StackVM

/-! ### Instructions -/

/-- The fault is the machine's own, and not that calls are too deep. -/
def Fault.Flat : Fault → Prop
  | .cause c => c.Flat
  | .internal _ => True
  | .thrown _ => False
  | .propagated _ => False

namespace Exec

variable {α β : Type}

lemma lift_flat {x : Eval α} (hx : Throws Cause.Flat x) : Throws Fault.Flat (liftM x : Exec α) := by
  intro m e m' h
  obtain ⟨c, g, hc, rfl, -⟩ := lift_error_iff.mp h
  exact hx _ _ _ hc

lemma ofExcept_flat {x : Except Cause α} (hx : Fails Cause.Flat x) :
    Throws Fault.Flat (ofExcept x) := by
  cases x with
  | ok a => exact .pure a
  | error c => exact .throw (hx c rfl)

lemma heap_flat : Throws Fault.Flat heap :=
  Throws.get.bind fun _ => .pure _

lemma frame_flat : Throws Fault.Flat frame := by
  refine Throws.get.bind fun m => ?_
  split
  · exact .pure _
  · exact .throw trivial

lemma modifyFrame_flat (g : Frame → Frame) : Throws Fault.Flat (modifyFrame g) := by
  refine Throws.get.bind fun m => ?_
  split
  · exact .modifyGet _
  · exact .throw trivial

lemma push_flat (v : Value) : Throws Fault.Flat (push v) :=
  modifyFrame_flat _

lemma jump_flat (target : Nat) : Throws Fault.Flat (jump target) :=
  modifyFrame_flat _

lemma peek_flat : Throws Fault.Flat peek := by
  refine frame_flat.bind fun f => ?_
  split
  · exact .pure _
  · exact .throw trivial

lemma pop_flat : Throws Fault.Flat pop := by
  refine frame_flat.bind fun f => ?_
  split
  · exact (modifyFrame_flat _).bind fun _ => .pure _
  · exact .throw trivial

lemma popN_flat (n : Nat) : Throws Fault.Flat (popN n) := by
  refine frame_flat.bind fun f => ?_
  split
  · exact (modifyFrame_flat _).bind fun _ => .pure _
  · exact .throw trivial

lemma operand_flat (i : Instruction) (found : Option α) : Throws Fault.Flat (operand i found) := by
  cases found with
  | some a => exact .pure a
  | none => exact .throw trivial

/-- A value that is evaluated is pushed. -/
lemma pushed_flat {x : Eval Value} (hx : Throws Cause.Flat x) :
    Throws Fault.Flat (liftM x >>= push : Exec Unit) :=
  (lift_flat hx).bind push_flat

lemma loadVariable_flat (scope : Scope) (name : String) :
    Throws Fault.Flat (loadVariable scope name) := by
  refine frame_flat.bind fun f => heap_flat.bind fun h => ?_
  split
  · exact push_flat _
  · cases scope <;> exact .throw trivial

lemma storeVariable_flat (scope : Scope) (name : String) :
    Throws Fault.Flat (storeVariable scope name) :=
  pop_flat.bind fun _ => frame_flat.bind fun _ => lift_flat (.modifyGet _)

lemma deleteVariable_flat (scope : Scope) (name : String) :
    Throws Fault.Flat (deleteVariable scope name) := by
  refine frame_flat.bind fun f => heap_flat.bind fun h => ?_
  split
  · exact lift_flat (.modifyGet _)
  · cases scope <;> exact .throw trivial

lemma cellAt_flat (index : Nat) : Throws Fault.Flat (cellAt index) := by
  refine frame_flat.bind fun f => ?_
  split
  · exact .pure _
  · exact .throw trivial

lemma loadCell_flat (index : Nat) : Throws Fault.Flat (loadCell index) := by
  refine heap_flat.bind fun h => (cellAt_flat index).bind fun r => ?_
  split
  · exact push_flat _
  · refine frame_flat.bind fun f => ?_
    split <;> exact .throw trivial

lemma storeCell_flat (index : Nat) : Throws Fault.Flat (storeCell index) :=
  pop_flat.bind fun _ => (cellAt_flat index).bind fun _ => lift_flat (.modifyGet _)

lemma rotate_flat (n : Nat) : Throws Fault.Flat (rotate n) := by
  refine frame_flat.bind fun f => ?_
  split
  · exact modifyFrame_flat _
  · exact .throw trivial

lemma storeMap_flat : Throws Fault.Flat storeMap := by
  refine pop_flat.bind fun key => pop_flat.bind fun value => peek_flat.bind fun v => ?_
  cases v with
  | dict r => exact lift_flat (Value.setItem_flat _ key value)
  | _ => exact .throw trivial

lemma unpacked_flat (v : Value) : Throws Fault.Flat (unpacked v) := by
  cases v with
  | tuple ident items => exact .pure items
  | list r => exact heap_flat.bind fun h => .pure _
  | _ => exact (lift_flat (Value.collect_flat _)).bind fun items => .pure _

lemma unpackSequence_flat (count : Nat) : Throws Fault.Flat (unpackSequence count) := by
  refine pop_flat.bind fun v => (unpacked_flat v).bind fun items => ?_
  split
  · exact .throw trivial
  · split
    · exact .throw trivial
    · exact modifyFrame_flat _

lemma getIter_flat : Throws Fault.Flat getIter := by
  refine pop_flat.bind fun v => ?_
  cases v with
  | iter r => exact push_flat _
  | _ => exact (lift_flat (Value.iterator_flat _)).bind fun it => pushed_flat (.modifyGet _)

lemma forIter_flat (exit : Nat) : Throws Fault.Flat (forIter exit) := by
  refine peek_flat.bind fun v => ?_
  cases v with
  | iter r =>
      refine heap_flat.bind fun h => (lift_flat (Iter.next_flat _)).bind fun step => ?_
      cases step with
      | some step => exact (lift_flat (.modifyGet _)).bind fun _ => push_flat step.1
      | none => exact (pop_flat.map _).bind fun _ => jump_flat exit
  | _ => exact .throw trivial

lemma popClosure_flat (code : Code) : Throws Fault.Flat (popClosure code) := by
  have hcells : ∀ vs, Fails Cause.Flat (cells vs) := by
    intro vs
    induction vs with
    | nil => exact .ok _
    | cons v vs ih =>
        cases v with
        | cell r => exact ih.map _
        | _ => exact .error trivial
  refine pop_flat.bind fun v => ?_
  cases v with
  | tuple ident items =>
      refine (ofExcept_flat (hcells items)).bind fun closure => ?_
      split
      · exact .pure _
      · exact .throw trivial
  | _ => exact .throw trivial

lemma makeFunction_flat (arg : Nat) (isClosure : Bool) :
    Throws Fault.Flat (makeFunction arg isClosure) := by
  have hpush : ∀ code closure, Throws Fault.Flat (pushFunction code arg closure) := by
    intro code closure
    refine (popN_flat _).bind fun pairs => (ofExcept_flat (Keyword.ofPairs_flat _)).bind ?_
    refine fun kwdefaults => (popN_flat _).bind fun defaults => frame_flat.bind fun f => ?_
    exact pushed_flat (.modifyGet _)
  refine pop_flat.bind fun v => ?_
  cases v with
  | code code =>
      cases isClosure with
      | true => exact (popClosure_flat code.code).bind fun closure => hpush code closure
      | false => exact hpush code []
  | _ => exact .throw trivial

lemma popBlock_flat : Throws Fault.Flat popBlock := by
  refine frame_flat.bind fun f => ?_
  split
  · exact .throw trivial
  · exact modifyFrame_flat _

lemma popCleanup_flat (op : String) : Throws Fault.Flat (popCleanup op) := by
  refine frame_flat.bind fun f => ?_
  split
  · exact (modifyFrame_flat _).bind fun _ => .pure _
  · exact .throw trivial

lemma endFinally_flat : Throws Fault.Flat endFinally := by
  refine (popCleanup_flat _).bind fun pending => ?_
  cases pending with
  | none | breaking | continuing => exact .pure _
  | returning | raising => exact Throws.bind (.modifyGet _) fun _ => .pure _

lemma instantiate_flat (v : Value) (arg : Option Value) :
    Throws Fault.Flat (instantiate v arg) := by
  cases v with
  | exception e => exact .pure e
  | excClass c =>
      refine (lift_flat (ExcClass.call_flat c _)).bind fun w => ?_
      cases w with
      | exception e => exact .pure e
      | _ => exact .throw trivial
  | _ => exact .throw trivial

/-- A raise fails with the instance that it raises, or as other instructions do. -/
lemma raiseVarargs_flat (count : Nat) :
    Throws (fun e => e.Flat ∨ ∃ exc, e = .thrown exc) (raiseVarargs count) := by
  have weaken : ∀ e : Fault, e.Flat → e.Flat ∨ ∃ exc, e = .thrown exc := fun _ => .inl
  have hpop := pop_flat.mono weaken
  have hinstantiate := fun v arg => (instantiate_flat v arg).mono weaken
  rw [raiseVarargs.eq_def]
  split
  · refine Throws.get.bind fun m => ?_
    split
    · exact Throws.bind (.modifyGet _) fun _ => .pure _
    · exact .throw (.inl trivial)
  · exact hpop.bind fun v => (hinstantiate v _).bind fun exc => .throw (.inr ⟨exc, rfl⟩)
  · refine hpop.bind fun arg => hpop.bind fun v => ?_
    exact (hinstantiate v _).bind fun exc => .throw (.inr ⟨exc, rfl⟩)
  · exact .throw (.inl trivial)

/-- No instruction but a call fails for the depth of calls. -/
lemma perform_flat (code : CodeObject) (i : Instruction) {op : Opcode} (hop : op ≠ .callFunction) :
    Throws Fault.Flat (perform code i op) := by
  cases op with
  | callFunction => exact absurd rfl hop
  | nop => exact .pure _
  | popTop => exact pop_flat.map _
  | dupTop => exact peek_flat.bind push_flat
  | rotTwo => exact rotate_flat 2
  | rotThree => exact rotate_flat 3
  | rotFour => exact rotate_flat 4
  | unary op => exact pop_flat.bind fun v => pushed_flat (Value.unary_flat op v)
  | binary op =>
      cases op with
      | matrixMultiply => exact .throw trivial
      | arith op =>
          exact pop_flat.bind fun r => pop_flat.bind fun l => pushed_flat (Value.binary_flat op l r)
      | subscr =>
          refine pop_flat.bind fun key => pop_flat.bind fun v => ?_
          exact pushed_flat (Value.getItem_flat v key)
  | inplace op =>
      exact pop_flat.bind fun r => pop_flat.bind fun l => pushed_flat (Value.inplace_flat op l r)
  | compare =>
      refine (operand_flat i _).bind fun op => pop_flat.bind fun r => pop_flat.bind fun l => ?_
      exact (lift_flat (Value.compareOp_flat op l r)).bind fun b => push_flat _
  | loadConst => exact (operand_flat i _).bind fun c => pushed_flat (Const.load_flat _ _ c)
  | load scope => exact (operand_flat i _).bind fun name => loadVariable_flat scope name
  | store scope => exact (operand_flat i _).bind fun name => storeVariable_flat scope name
  | delete scope => exact (operand_flat i _).bind fun name => deleteVariable_flat scope name
  | loadClosure =>
      exact (operand_flat i _).bind fun index => (cellAt_flat index).bind fun r => push_flat _
  | loadDeref => exact (operand_flat i _).bind loadCell_flat
  | storeDeref => exact (operand_flat i _).bind storeCell_flat
  | buildTuple => exact (popN_flat _).bind fun vs => pushed_flat (Eval.newTuple_flat vs)
  | buildList => exact (popN_flat _).bind fun vs => pushed_flat (.modifyGet _)
  | buildMap => exact pushed_flat (.modifyGet _)
  | storeMap => exact storeMap_flat
  | storeSubscr =>
      refine pop_flat.bind fun key => pop_flat.bind fun v => pop_flat.bind fun value => ?_
      exact lift_flat (Value.setItem_flat v key value)
  | deleteSubscr =>
      exact pop_flat.bind fun key => pop_flat.bind fun v => lift_flat (Value.deleteItem_flat v key)
  | unpackSequence => exact unpackSequence_flat _
  | getIter => exact getIter_flat
  | forIter => exact (operand_flat i _).bind forIter_flat
  | jumpForward | jumpAbsolute => exact (operand_flat i _).bind jump_flat
  | popJumpIf cond =>
      refine (operand_flat i _).bind fun target => pop_flat.bind fun v => heap_flat.bind fun h => ?_
      split
      · exact jump_flat target
      · exact .pure _
  | jumpIfOrPop cond =>
      refine (operand_flat i _).bind fun target => heap_flat.bind fun h => ?_
      refine peek_flat.bind fun v => ?_
      split
      · exact jump_flat target
      · exact pop_flat.map _
  | setup block => exact (operand_flat i _).bind fun handler => modifyFrame_flat _
  | popBlock => exact popBlock_flat
  | popExcept => exact (popCleanup_flat _).map _
  | makeFunction => exact makeFunction_flat _ false
  | makeClosure => exact makeFunction_flat _ true
  | _ => exact .throw trivial

lemma executeOp_flat (code : CodeObject) (i : Instruction) {op : Opcode}
    (hop : op ≠ .callFunction) (hraise : op ≠ .raiseVarargs) :
    Throws Fault.Flat (executeOp code i op) := by
  have plain : Throws Fault.Flat
      (perform code i op >>= fun _ => pure none : Exec (Option Signal)) :=
    (perform_flat code i hop).bind fun _ => .pure _
  cases op with
  | endFinally => exact endFinally_flat
  | breakLoop => exact .pure _
  | continueLoop => exact (operand_flat i _).bind fun target => .pure _
  | returnValue => exact pop_flat.bind fun v => Throws.bind (.modifyGet _) fun _ => .pure _
  | raiseVarargs => exact absurd rfl hraise
  | _ => exact plain

/-! ### Calls of functions -/

variable {i : Instruction} {f : Frame} {below : List Frame} {m m' : Machine} {e : Fault}

/-- There is no room for a frame if there are as many as the limit allows. -/
lemma checkDepth_error_iff {l : Limits} {depth : Nat} {limit : LimitError} :
    l.checkDepth depth = .error limit ↔
      ∃ n, l.depth = some n ∧ n ≤ depth ∧ limit = .depth n := by
  rw [Limits.checkDepth]
  cases l.depth with
  | none => simp
  | some n =>
      by_cases hn : n ≤ depth
      · simp [hn, eq_comm]
      · simp [hn]

lemma checkDepth_ok_iff {l : Limits} {depth : Nat} :
    l.checkDepth depth = .ok () ↔ ∀ n, l.depth = some n → depth < n := by
  rw [Limits.checkDepth]
  cases l.depth with
  | none => simp
  | some n =>
      by_cases hn : n ≤ depth
      · simp [hn]
      · simp [hn, Nat.lt_of_not_le hn]

lemma enter_flat {callee : Frame} (h : enter callee m = .error e m') :
    ∃ n, m.limits.depth = some n ∧ n ≤ m.calls.depth := by
  cases hroom : m.limits.checkDepth m.calls.depth with
  | ok u =>
      rw [enter_of_room callee hroom] at h
      cases h
  | error limit =>
      obtain ⟨n, hlimit, hle, -⟩ := checkDepth_error_iff.mp hroom
      exact ⟨n, hlimit, hle⟩

lemma enterFunction_flat {fn : Function} {args : Args} (hf : m.frames = f :: below)
    (h : enterFunction fn args m = .error e m') :
    e.Flat ∨ ∃ n, m.limits.depth = some n ∧ n ≤ below.length + 1 := by
  rcases bind_error_iff.mp h with h | ⟨bound, m₁, h₁, h⟩
  · exact .inl (lift_flat (Signature.bind_flat _ _ _ _ _) m e m' h)
  obtain ⟨g₁, -, hm₁⟩ := lift_ok_iff.mp h₁
  rcases bind_error_iff.mp h with h | ⟨locals, m₂, h₂, h⟩
  · exact .inl (lift_flat (.modifyGet _) m₁ e m' h)
  obtain ⟨g₂, -, hm₂⟩ := lift_ok_iff.mp h₂
  have hf₂ : m₂.frames = f :: below := by
    rw [hm₂, hm₁]
    exact hf
  rw [bind_of_ok (frame_run hf₂)] at h
  rcases bind_error_iff.mp h with h | ⟨callee, m₃, h₃, h⟩
  · exact .inl (lift_flat (Frame.make_flat _ _ _ _ _) m₂ e m' h)
  obtain ⟨g₃, -, hm₃⟩ := lift_ok_iff.mp h₃
  obtain ⟨n, hlimit, hle⟩ := enter_flat h
  rw [hm₃, hm₂, hm₁] at hlimit hle
  refine .inr ⟨n, hlimit, ?_⟩
  rwa [m.calls.depth_eq, ← Machine.frames, hf] at hle

/-- A call that fails for the depth of calls finds as many frames as the limit allows. -/
lemma callFunction_flat {arg : Nat} (hf : m.frames = f :: below)
    (h : callFunction arg m = .error e m') :
    e.Flat ∨ ∃ n, m.limits.depth = some n ∧ n ≤ below.length + 1 := by
  rcases bind_error_iff.mp h with h | ⟨pairs, m₁, h₁, h⟩
  · exact .inl (popN_flat _ m e m' h)
  have hm₁ := (popN_ok hf h₁).2
  rcases bind_error_iff.mp h with h | ⟨keywords, m₂, h₂, h⟩
  · exact .inl (ofExcept_flat (Keyword.ofPairs_flat pairs) m₁ e m' h)
  have hm₂ := (ofExcept_ok h₂).2.trans hm₁
  have hf₂ := hm₂ ▸ Machine.frames_withTop hf _
  rcases bind_error_iff.mp h with h | ⟨positional, m₃, h₃, h⟩
  · exact .inl (popN_flat _ m₂ e m' h)
  have hm₃ := (popN_ok hf₂ h₃).2
  have hf₃ := hm₃ ▸ Machine.frames_withTop hf₂ _
  rcases bind_error_iff.mp h with h | ⟨v, m₄, h₄, h⟩
  · exact .inl (pop_flat m₃ e m' h)
  obtain ⟨vs, -, hm₄⟩ := pop_ok hf₃ h₄
  have hf₄ := hm₄ ▸ Machine.frames_withTop hf₃ _
  have hlimits : m₄.limits = m.limits := by
    rw [hm₄, hm₃, hm₂]
    rfl
  cases v with
  | function r =>
      rw [← hlimits]
      exact enterFunction_flat hf₄ h
  | builtin b =>
      refine .inl ((lift_flat (Builtin.call_flat b _)).bind (fun result => ?_) m₄ e m' h)
      exact Throws.bind (.modifyGet _) fun _ => push_flat _
  | excClass c => exact .inl (pushed_flat (ExcClass.call_flat c _) m₄ e m' h)
  | _ => exact .inl (Throws.throw trivial m₄ e m' h)

/-- **An instruction that fails** does so by a fault of the machine that is not the depth of calls,
or it is a raise and fails with its instance, or it is a call that finds as many frames as the limit
allows. -/
theorem execute_flat {code : CodeObject} (hf : m.frames = f :: below)
    (h : execute code i m = .error e m') :
    e.Flat ∨ i.opcode = some .raiseVarargs ∧ (∃ exc, e = .thrown exc) ∨
      i.opcode = some .callFunction ∧ ∃ n, m.limits.depth = some n ∧ n ≤ below.length + 1 := by
  rw [execute] at h
  cases hop : i.opcode with
  | none =>
      rw [hop] at h
      exact .inl (Throws.throw trivial m e m' h)
  | some op =>
      rw [hop] at h
      by_cases hcall : op = .callFunction
      · subst hcall
        rcases bind_error_iff.mp h with h | ⟨u, m₁, -, h⟩
        · exact (callFunction_flat hf h).imp_right fun hfull => .inr ⟨rfl, hfull⟩
        · cases h
      · by_cases hraise : op = .raiseVarargs
        · subst hraise
          exact (raiseVarargs_flat i.arg m e m' h).imp_right fun hthrown => .inl ⟨rfl, hthrown⟩
        · exact .inl (executeOp_flat code i hcall hraise m e m' h)

end Exec

end StackVM
