/-
Cells in scope, in frames and machines. Cells stand among the operands of a frame, in what
waits for the end of a handler, and in the value that is being returned; a frame also has
cells of its own.

* `Frame.Within`, `Machine.Within`: the cells that stand in a frame and in a machine are among
  the first ones;
* `Machine.Kept`: what instructions keep;
* `Exec.executeOp_keeps`: every instruction keeps it, but for calls and stores in cells.
-/
import StackVM.Proofs.Operands
import StackVM.Proofs.ScopedEvaluation

namespace StackVM

open Value (Within)

/-! ### Frames and machines -/

/-- The cells in what waits for the end of a handler. -/
def Pending.Within (n : Nat) : Pending → Prop
  | .returning v => v.Within n
  | _ => True

/-- The cells in what waits in a block. -/
def BlockKind.Within (n : Nat) : BlockKind → Prop
  | .cleanup pending => pending.Within n
  | _ => True

/-- The cells in the operands and the blocks of a frame, and those it has itself. -/
structure Frame.Within (n : Nat) (f : Frame) : Prop where
  stack : ∀ v ∈ f.stack, v.Within n
  blocks : ∀ b ∈ f.blocks, b.kind.Within n
  cells : ∀ r ∈ f.cells, r.index < n

/-- The cells in the frames and the registers of a machine. -/
structure Machine.Within (n : Nat) (m : Machine) : Prop where
  frames : ∀ f ∈ m.frames, f.Within n
  result : ∀ v ∈ m.registers.result, v.Within n

/-- The machine has its heap from `h₀` by operations on values, and refers to the first `n`
cells only. -/
structure Machine.Kept (n : Nat) (h₀ : Heap) (m : Machine) : Prop extends m.Within n where
  heap : Heap.Kept n h₀ m.heap

open Machine (Kept)

variable {n : Nat} {h₀ : Heap}

/-! ### Operations on the current frame -/

namespace Exec

variable {α β : Type} {P : α → Prop}

lemma lift_keeps {x : Eval α} (hx : Keeps (Heap.Kept n h₀) P x) :
    Keeps (Kept n h₀) P (liftM x : Exec α) := by
  refine ⟨?_, ?_⟩
  · intro m a m' hm h
    obtain ⟨h', hok, rfl⟩ := lift_ok_iff.mp h
    obtain ⟨hh, ha⟩ := hx.results _ a h' hm.heap hok
    exact ⟨⟨⟨hm.frames, hm.result⟩, hh⟩, ha⟩
  · intro m e m' hm h
    obtain ⟨c, h', herror, -, rfl⟩ := lift_error_iff.mp h
    exact ⟨⟨hm.frames, hm.result⟩, hx.failures _ c h' hm.heap herror⟩

lemma fail_keeps (c : Cause) : Keeps (Kept n h₀) P (fail c : Exec α) :=
  .throw _

lemma ofExcept_keeps {x : Except Cause α} (hx : ∀ a, x = .ok a → P a) :
    Keeps (Kept n h₀) P (ofExcept x) := by
  cases x with
  | ok a => exact .pure (hx a rfl)
  | error c => exact .throw _

lemma operand_keeps (i : Instruction) (found : Option α) :
    Keeps (Kept n h₀) (fun _ => True) (operand i found) := by
  cases found with
  | some a => exact .pure trivial
  | none => exact .throw _

lemma heap_keeps : Keeps (Kept n h₀) (Heap.Kept n h₀) heap :=
  Keeps.get.bind fun _ hm => .pure hm.heap

lemma frame_keeps : Keeps (Kept n h₀) (Frame.Within n) frame := by
  refine Keeps.get.bind fun m hm => ?_
  split
  next f below hf => exact .pure (hm.frames f (hf ▸ List.mem_cons_self))
  next => exact .throw _

lemma modifyFrame_keeps {g : Frame → Frame} (hg : ∀ f, f.Within n → (g f).Within n) :
    Keeps (Kept n h₀) (fun _ => True) (modifyFrame g) := by
  have changed : ∀ m, Kept n h₀ m → Kept n h₀ { m with calls := m.calls.modifyTop g } := by
    intro m hm
    refine ⟨⟨?_, hm.result⟩, hm.heap⟩
    cases hf : m.frames with
    | nil =>
        have : m.calls.modifyTop g = m.calls := by
          rw [CallStack.modifyTop]
          split
          · rfl
          next h => rw [show m.calls.frames = [] from hf] at h; cases h
        intro f hmem
        rw [Machine.frames, this] at hmem
        exact hm.frames f hmem
    | cons f below =>
        intro f' hmem
        rw [Machine.frames, CallStack.frames_modifyTop hf] at hmem
        rcases List.mem_cons.mp hmem with rfl | hmem
        · exact hg f (hm.frames f (hf ▸ List.mem_cons_self))
        · exact hm.frames f' (hf ▸ List.mem_cons_of_mem f hmem)
  refine Keeps.get.bind fun m _ => ?_
  split
  · exact .modifyGet fun m' hm' => ⟨changed m' hm', trivial⟩
  · exact .throw _

/-- A change of the operands. -/
lemma modifyStack_keeps {g : Frame → List Value}
    (hg : ∀ f, f.Within n → ∀ v ∈ g f, v.Within n) :
    Keeps (Kept n h₀) (fun _ => True) (modifyFrame fun f => { f with stack := g f }) :=
  modifyFrame_keeps fun f hf => ⟨hg f hf, hf.blocks, hf.cells⟩

lemma push_keeps {v : Value} (hv : v.Within n) : Keeps (Kept n h₀) (fun _ => True) (push v) :=
  modifyStack_keeps fun _ hf => List.forall_mem_cons.mpr ⟨hv, hf.stack⟩

lemma jump_keeps (t : Nat) : Keeps (Kept n h₀) (fun _ => True) (jump t) :=
  modifyFrame_keeps fun _ hf => ⟨hf.stack, hf.blocks, hf.cells⟩

lemma put_keeps (os : List Output) : Keeps (Kept n h₀) (fun _ => True) (put os) :=
  .modifyGet fun _ hm => ⟨⟨⟨hm.frames, hm.result⟩, hm.heap⟩, trivial⟩

lemma peek_keeps : Keeps (Kept n h₀) (Within n) peek := by
  refine frame_keeps.bind fun f hf => ?_
  split
  next v vs hs => exact .pure (hf.stack v (hs ▸ List.mem_cons_self))
  next => exact .throw _

lemma pop_keeps : Keeps (Kept n h₀) (Within n) pop := by
  refine frame_keeps.bind fun f hf => ?_
  split
  next v vs hs =>
    obtain ⟨hv, hvs⟩ := List.forall_mem_cons.mp (hs ▸ hf.stack)
    exact (modifyStack_keeps fun _ _ => hvs).bind fun _ _ => .pure hv
  next => exact .throw _

lemma discardPop_keeps : Keeps (Kept n h₀) (fun _ => True) (discard pop) :=
  pop_keeps.bind fun _ _ => .pure trivial

lemma popN_keeps (k : Nat) : Keeps (Kept n h₀) (fun vs => ∀ v ∈ vs, v.Within n) (popN k) := by
  refine frame_keeps.bind fun f hf => ?_
  rw [Frame.popN?]
  split
  next vs f' h =>
    split at h
    next =>
      cases h
      refine (modifyFrame_keeps fun _ _ => ?_).bind fun _ _ => .pure fun v hv => ?_
      · exact ⟨fun v hv => hf.stack v (List.mem_of_mem_drop hv), hf.blocks, hf.cells⟩
      · exact hf.stack v (List.mem_of_mem_take (List.mem_reverse.mp hv))
    next => cases h
  next => exact .throw _

lemma rotate_keeps (k : Nat) : Keeps (Kept n h₀) (fun _ => True) (rotate k) := by
  refine frame_keeps.bind fun f hf => ?_
  rw [Frame.rotate?]
  split
  next f' h =>
    split at h
    next =>
      cases h
      refine modifyFrame_keeps fun _ _ => ⟨fun v hv => hf.stack v ?_, hf.blocks, hf.cells⟩
      rcases List.mem_append.mp hv with hv | hv
      · exact List.mem_of_mem_take (List.mem_of_mem_tail hv)
      · rcases List.mem_append.mp hv with hv | hv
        · exact List.mem_of_mem_take hv
        · exact List.mem_of_mem_drop hv
    next => cases h
  next => exact .throw _

/-! ### Instructions -/

/-- The value of a variable is one of a namespace. -/
lemma lookup?_within {f : Frame} {h : Heap} (hh : h.Within n) {scope : Scope} {name : String}
    {v : Value} (hv : f.lookup? h scope name = some v) : v.Within n := by
  cases scope with
  | name =>
      rcases Option.or_eq_some_iff.mp hv with hv | ⟨-, hv⟩
      · exact (hh.names _).get? hv
      · rcases Option.or_eq_some_iff.mp hv with hv | ⟨-, hv⟩
        · exact (hh.names _).get? hv
        · exact (hh.names _).get? hv
  | global =>
      rcases Option.or_eq_some_iff.mp hv with hv | ⟨-, hv⟩
      · exact (hh.names _).get? hv
      · exact (hh.names _).get? hv
  | fast => exact (hh.names _).get? hv

lemma loadVariable_keeps (scope : Scope) (name : String) :
    Keeps (Kept n h₀) (fun _ => True) (loadVariable scope name) := by
  refine frame_keeps.bind fun f _ => heap_keeps.bind fun h hh => ?_
  split
  next v hv => exact push_keeps (lookup?_within hh.within hv)
  next => exact fail_keeps _

lemma storeVariable_keeps (scope : Scope) (name : String) :
    Keeps (Kept n h₀) (fun _ => True) (storeVariable scope name) := by
  refine pop_keeps.bind fun v hv => frame_keeps.bind fun f _ => ?_
  exact lift_keeps (Eval.modifyNames_keeps _ fun ns hns => hns.set name hv)

lemma deleteVariable_keeps (scope : Scope) (name : String) :
    Keeps (Kept n h₀) (fun _ => True) (deleteVariable scope name) := by
  refine frame_keeps.bind fun f _ => heap_keeps.bind fun h _ => ?_
  split
  · exact lift_keeps (Eval.modifyNames_keeps _ fun ns hns => hns.erase name)
  · exact fail_keeps _

lemma cellAt_keeps (index : Nat) :
    Keeps (Kept n h₀) (fun r => r.index < n) (cellAt index) := by
  refine frame_keeps.bind fun f hf => ?_
  split
  next r hr => exact .pure (hf.cells r (List.mem_of_getElem? hr))
  next => exact .throw _

lemma loadCell_keeps (index : Nat) : Keeps (Kept n h₀) (fun _ => True) (loadCell index) := by
  refine heap_keeps.bind fun h hh => (cellAt_keeps index).bind fun r _ => ?_
  split
  next v hv => exact push_keeps (hh.within.cell hv)
  next =>
    refine frame_keeps.bind fun f _ => ?_
    split
    · exact fail_keeps _
    · exact .throw _

lemma storeMap_keeps : Keeps (Kept n h₀) (fun _ => True) storeMap := by
  refine pop_keeps.bind fun key hkey => pop_keeps.bind fun value hvalue =>
    peek_keeps.bind fun v _ => ?_
  cases v with
  | dict r => exact lift_keeps (Value.setItem_keeps _ hkey hvalue)
  | _ => exact fail_keeps _

lemma unpacked_keeps {v : Value} (hv : v.Within n) :
    Keeps (Kept n h₀) (fun vs => ∀ w ∈ vs, w.Within n) (unpacked v) := by
  have collected : ∀ {v : Value}, v.Within n →
      Keeps (Kept n h₀) (fun vs => ∀ w ∈ vs, w.Within n)
        ((liftM v.collect : Exec _) >>= fun items => pure items.toList) := by
    intro v hv
    refine (lift_keeps (Value.collect_keeps hv)).bind fun items hi => .pure fun w hw => ?_
    exact hi w (Array.mem_toList_iff.mp hw)
  cases v with
  | tuple ident items => exact .pure (Value.within_tuple_iff.mp hv)
  | list r =>
      refine heap_keeps.bind fun h hh => .pure fun w hw => ?_
      exact hh.within.list r w (Array.mem_toList_iff.mp hw)
  | _ => exact collected hv

lemma unpackSequence_keeps (count : Nat) :
    Keeps (Kept n h₀) (fun _ => True) (unpackSequence count) := by
  refine pop_keeps.bind fun v hv => (unpacked_keeps hv).bind fun items hi => ?_
  split
  · exact fail_keeps _
  · split
    · exact fail_keeps _
    · exact modifyStack_keeps fun f hf => List.forall_mem_append.mpr ⟨hi, hf.stack⟩

lemma getIter_keeps : Keeps (Kept n h₀) (fun _ => True) getIter := by
  refine pop_keeps.bind fun v hv => ?_
  have made : ∀ {v : Value}, v.Within n → Keeps (Kept n h₀) (fun _ => True)
      ((liftM v.iterator : Exec _) >>= fun it => (liftM (Eval.newIter it) : Exec _) >>= push) := by
    intro v hv
    refine (lift_keeps (Value.iterator_keeps hv)).bind fun it hi => ?_
    exact (lift_keeps (Eval.newIter_keeps hi)).bind fun w hw => push_keeps hw
  cases v with
  | iter r => exact push_keeps trivial
  | _ => exact made hv

lemma forIter_keeps (exit : Nat) : Keeps (Kept n h₀) (fun _ => True) (forIter exit) := by
  refine peek_keeps.bind fun v _ => ?_
  cases v with
  | iter r =>
      refine heap_keeps.bind fun h hh => ?_
      refine (lift_keeps (Iter.next_keeps (hh.within.iter r))).bind fun step hstep => ?_
      cases step with
      | some step =>
          obtain ⟨hv, hi⟩ := hstep step rfl
          exact (lift_keeps (Eval.setIter_keeps r hi)).bind fun _ _ => push_keeps hv
      | none => exact discardPop_keeps.bind fun _ _ => jump_keeps exit
  | _ => exact fail_keeps _

/-! ### Functions -/

/-- The cells that a closure is made of stood in its tuple. -/
lemma cells_within {vs : List Value} {rs : List (Ref .cell)} (hvs : ∀ v ∈ vs, v.Within n)
    (h : cells vs = .ok rs) : ∀ r ∈ rs, r.index < n := by
  induction vs generalizing rs with
  | nil =>
      cases h
      exact List.forall_mem_nil _
  | cons v vs ih =>
      obtain ⟨hv, hrest⟩ := List.forall_mem_cons.mp hvs
      cases v with
      | cell r =>
          rw [cells] at h
          cases hrs : cells vs with
          | error c =>
              rw [hrs] at h
              cases h
          | ok rs' =>
              rw [hrs] at h
              cases h
              exact List.forall_mem_cons.mpr ⟨hv, ih hrest hrs⟩
      | _ => cases h

lemma popClosure_keeps (code : Code) :
    Keeps (Kept n h₀) (fun rs => ∀ r ∈ rs, r.index < n) (popClosure code) := by
  refine pop_keeps.bind fun v hv => ?_
  cases v with
  | tuple ident items =>
      refine (ofExcept_keeps fun rs hrs => cells_within (Value.within_tuple_iff.mp hv) hrs).bind
        fun rs hrs => ?_
      split
      · exact .pure hrs
      · exact fail_keeps _
  | _ => exact fail_keeps _

lemma pushFunction_keeps (code : CodeObject) (arg : Nat) {closure : List (Ref .cell)}
    (hc : ∀ r ∈ closure, r.index < n) :
    Keeps (Kept n h₀) (fun _ => True) (pushFunction code arg closure) := by
  refine (popN_keeps _).bind fun pairs hpairs => ?_
  refine (ofExcept_keeps fun ks hks => Keyword.within_ofPairs hpairs hks).bind
    fun kwdefaults hkw => ?_
  refine (popN_keeps _).bind fun defaults hdefaults => frame_keeps.bind fun f _ => ?_
  refine (lift_keeps (Eval.newFunction_keeps ⟨hdefaults, ?_, hc⟩)).bind fun v hv => push_keeps hv
  intro d hd
  obtain ⟨k, hk, rfl⟩ := List.mem_map.mp hd
  exact hkw k hk

lemma makeFunction_keeps (arg : Nat) (isClosure : Bool) :
    Keeps (Kept n h₀) (fun _ => True) (makeFunction arg isClosure) := by
  refine pop_keeps.bind fun v _ => ?_
  cases v with
  | code code =>
      cases isClosure with
      | true =>
          exact (popClosure_keeps code.code).bind fun rs hrs => pushFunction_keeps code arg hrs
      | false => exact pushFunction_keeps code arg (List.forall_mem_nil _)
  | _ => exact fail_keeps _

/-! ### Blocks and signals -/

lemma setupBlock_keeps (block : BlockSetup) (handler : Nat) :
    Keeps (Kept n h₀) (fun _ => True) (setupBlock (.ofSetup block) handler) := by
  refine modifyFrame_keeps fun f hf => ⟨hf.stack, ?_, hf.cells⟩
  refine List.forall_mem_cons.mpr ⟨?_, hf.blocks⟩
  cases block <;> trivial

lemma popBlock_keeps : Keeps (Kept n h₀) (fun _ => True) popBlock := by
  refine frame_keeps.bind fun f hf => ?_
  split
  · exact fail_keeps _
  next b below hb =>
    obtain ⟨-, hbelow⟩ := List.forall_mem_cons.mp (hb ▸ hf.blocks)
    refine modifyFrame_keeps fun f' hf' => ?_
    split
    · exact ⟨hf'.stack, List.forall_mem_cons.mpr ⟨trivial, hbelow⟩, hf'.cells⟩
    · exact ⟨hf'.stack, hbelow, hf'.cells⟩

lemma popCleanup_keeps (op : String) :
    Keeps (Kept n h₀) (Pending.Within n) (popCleanup op) := by
  refine frame_keeps.bind fun f hf => ?_
  split
  next pending handler level below hb =>
    obtain ⟨hpending, hbelow⟩ := List.forall_mem_cons.mp (hb ▸ hf.blocks)
    refine (modifyFrame_keeps fun f' hf' => ?_).bind fun _ _ => .pure hpending
    exact ⟨fun v hv => hf'.stack v (List.mem_of_mem_drop hv), hbelow, hf'.cells⟩
  next => exact fail_keeps _

lemma endFinally_keeps : Keeps (Kept n h₀) (fun _ => True) endFinally := by
  refine (popCleanup_keeps _).bind fun pending hpending => ?_
  cases pending with
  | none | breaking | continuing => exact .pure trivial
  | returning v =>
      refine Keeps.bind (P := fun _ => True) (.modifyGet fun m hm => ⟨?_, trivial⟩)
        fun _ _ => .pure trivial
      exact ⟨⟨hm.frames, Value.within_some hpending⟩, hm.heap⟩
  | raising r =>
      refine Keeps.bind (P := fun _ => True) (.modifyGet fun m hm => ⟨?_, trivial⟩)
        fun _ _ => .pure trivial
      exact ⟨⟨hm.frames, hm.result⟩, hm.heap⟩

lemma instantiate_keeps (v : Value) {arg : Option Value} (ha : ∀ w ∈ arg, w.Within n) :
    Keeps (Kept n h₀) (fun _ => True) (instantiate v arg) := by
  cases v with
  | exception e => exact .pure trivial
  | excClass c =>
      have hargs : Args.Within n { positional := arg.toList } :=
        ⟨fun w hw => ha w (Option.mem_toList.mp hw), List.forall_mem_nil _⟩
      refine (lift_keeps (ExcClass.call_keeps c hargs)).bind fun w _ => ?_
      cases w with
      | exception e => exact .pure trivial
      | _ => exact .throw _
  | _ => exact fail_keeps _

lemma raiseVarargs_keeps (count : Nat) :
    Keeps (Kept n h₀) (fun _ => True) (raiseVarargs count) := by
  match count with
  | 0 =>
      refine Keeps.get.bind fun m _ => ?_
      split
      · refine Keeps.bind (P := fun _ => True) (.modifyGet fun m hm => ⟨?_, trivial⟩)
          fun _ _ => .pure trivial
        exact ⟨⟨hm.frames, hm.result⟩, hm.heap⟩
      · exact fail_keeps _
  | 1 =>
      refine pop_keeps.bind fun v _ => ?_
      exact (instantiate_keeps v Value.within_none).bind fun e _ => .throw _
  | 2 =>
      refine pop_keeps.bind fun arg harg => pop_keeps.bind fun v _ => ?_
      exact (instantiate_keeps v (Value.within_some harg)).bind fun e _ => .throw _
  | k + 3 => exact fail_keeps _

/-- An instruction that neither calls nor stores in a cell refers to no new cell. -/
lemma perform_keeps (code : CodeObject) (i : Instruction) {op : Opcode} (hcall : op ≠ .callFunction)
    (hstore : op ≠ .storeDeref) : Keeps (Kept n h₀) (fun _ => True) (perform code i op) := by
  cases op with
  | callFunction => exact absurd rfl hcall
  | storeDeref => exact absurd rfl hstore
  | nop => exact .pure trivial
  | popTop => exact discardPop_keeps
  | dupTop => exact peek_keeps.bind fun v hv => push_keeps hv
  | rotTwo => exact rotate_keeps 2
  | rotThree => exact rotate_keeps 3
  | rotFour => exact rotate_keeps 4
  | unary op =>
      refine pop_keeps.bind fun v _ => ?_
      exact (lift_keeps (Value.unary_keeps op v)).bind fun w hw => push_keeps hw
  | binary op =>
      cases op with
      | arith op =>
          refine pop_keeps.bind fun r hr => pop_keeps.bind fun l hl => ?_
          exact (lift_keeps (Value.arith_keeps op _ hl hr)).bind fun w hw => push_keeps hw
      | subscr =>
          refine pop_keeps.bind fun key _ => pop_keeps.bind fun v hv => ?_
          exact (lift_keeps (Value.getItem_keeps hv key)).bind fun w hw => push_keeps hw
      | matrixMultiply => exact fail_keeps _
  | inplace op =>
      refine pop_keeps.bind fun r hr => pop_keeps.bind fun l hl => ?_
      exact (lift_keeps (Value.inplace_keeps op hl hr)).bind fun w hw => push_keeps hw
  | compare =>
      refine (operand_keeps i _).bind fun op _ => pop_keeps.bind fun r _ =>
        pop_keeps.bind fun l _ => ?_
      exact (lift_keeps (Value.compareOp_keeps op l r)).bind fun b _ => push_keeps trivial
  | loadConst =>
      refine (operand_keeps i _).bind fun c _ => ?_
      exact (lift_keeps (Const.load_keeps _ _ c)).bind fun v hv => push_keeps hv
  | load scope => exact (operand_keeps i _).bind fun name _ => loadVariable_keeps scope name
  | store scope => exact (operand_keeps i _).bind fun name _ => storeVariable_keeps scope name
  | delete scope => exact (operand_keeps i _).bind fun name _ => deleteVariable_keeps scope name
  | loadClosure =>
      refine (operand_keeps i _).bind fun index _ => ?_
      exact (cellAt_keeps index).bind fun r hr => push_keeps hr
  | loadDeref => exact (operand_keeps i _).bind fun index _ => loadCell_keeps index
  | buildTuple =>
      refine (popN_keeps _).bind fun items hi => ?_
      exact (lift_keeps (Eval.newTuple_keeps hi)).bind fun v hv => push_keeps hv
  | buildList =>
      refine (popN_keeps _).bind fun items hi => ?_
      refine (lift_keeps (Eval.newList_keeps fun v hv => ?_)).bind fun v hv => push_keeps hv
      exact hi v (List.mem_toArray.mp hv)
  | buildMap =>
      exact (lift_keeps (Eval.newDict_keeps Dict.within_empty)).bind fun v hv => push_keeps hv
  | storeMap => exact storeMap_keeps
  | storeSubscr =>
      refine pop_keeps.bind fun key hkey => pop_keeps.bind fun v _ => ?_
      exact pop_keeps.bind fun value hvalue => lift_keeps (Value.setItem_keeps v hkey hvalue)
  | deleteSubscr =>
      refine pop_keeps.bind fun key _ => pop_keeps.bind fun v _ => ?_
      exact lift_keeps (Value.deleteItem_keeps v key)
  | unpackSequence => exact unpackSequence_keeps _
  | getIter => exact getIter_keeps
  | forIter => exact (operand_keeps i _).bind fun exit _ => forIter_keeps exit
  | jumpForward => exact (operand_keeps i _).bind fun t _ => jump_keeps t
  | jumpAbsolute => exact (operand_keeps i _).bind fun t _ => jump_keeps t
  | popJumpIf cond =>
      refine (operand_keeps i _).bind fun t _ => pop_keeps.bind fun v _ =>
        heap_keeps.bind fun h _ => ?_
      split
      · exact jump_keeps t
      · exact .pure trivial
  | jumpIfOrPop cond =>
      refine (operand_keeps i _).bind fun t _ => heap_keeps.bind fun h _ =>
        peek_keeps.bind fun v _ => ?_
      split
      · exact jump_keeps t
      · exact discardPop_keeps
  | setup block => exact (operand_keeps i _).bind fun t _ => setupBlock_keeps block t
  | popBlock => exact popBlock_keeps
  | popExcept => exact (popCleanup_keeps _).bind fun _ _ => .pure trivial
  | makeFunction => exact makeFunction_keeps _ false
  | makeClosure => exact makeFunction_keeps _ true
  | _ => exact fail_keeps _

lemma executeOp_keeps (code : CodeObject) (i : Instruction) {op : Opcode}
    (hcall : op ≠ .callFunction) (hstore : op ≠ .storeDeref) :
    Keeps (Kept n h₀) (fun _ => True) (executeOp code i op) := by
  have plain : Keeps (Kept n h₀) (fun _ => True)
      (perform code i op >>= fun _ => pure none : Exec (Option Signal)) :=
    (perform_keeps code i hcall hstore).bind fun _ _ => .pure trivial
  cases op with
  | endFinally => exact endFinally_keeps
  | breakLoop => exact .pure trivial
  | continueLoop => exact (operand_keeps i _).bind fun t _ => .pure trivial
  | returnValue =>
      refine pop_keeps.bind fun v hv => ?_
      refine Keeps.bind (P := fun _ => True) (.modifyGet fun m hm => ⟨?_, trivial⟩)
        fun _ _ => .pure trivial
      exact ⟨⟨hm.frames, Value.within_some hv⟩, hm.heap⟩
  | raiseVarargs => exact raiseVarargs_keeps _
  | _ => exact plain

end Exec

end StackVM
