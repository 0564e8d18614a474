/-
The operations on the current frame, run on a machine whose current frame is known:
each leaves the machine with another current frame, or fails and leaves it as it was.

* `Machine.withTop`: the machine with another current frame;
* `Exec.modifyFrame_run`, `Exec.pop_run`, `Exec.popN_run`, ...: the run of each operation;
* `Exec.lift_ok_iff`, `Exec.lift_error_iff`: the run of an operation on values;
* `Exec.operate_of_ok`, `Exec.operate_of_error`: an operation on the two top values;
* `Exec.execute_of_perform_ok`, `Exec.execute_of_perform_error`: instructions without a signal.
-/
import StackVM.Machine.Execute
import StackVM.Proofs.Outcome

namespace StackVM

/-! ### The current frame -/

namespace CallStack

/-- A change of the current frame leaves those below. -/
lemma frames_modifyTop {c : CallStack} {f : Frame} {below : List Frame}
    (h : c.frames = f :: below) (g : Frame → Frame) :
    (c.modifyTop g).frames = g f :: below := by
  rw [modifyTop]
  split
  next h' => rw [h] at h'; cases h'
  next f' below' h' =>
    rw [h] at h'
    cases h'
    rfl

/-- What a change makes of the current frame is all that matters of it. -/
lemma modifyTop_eq {c : CallStack} {f : Frame} {below : List Frame} (h : c.frames = f :: below)
    (g : Frame → Frame) : c.modifyTop g = c.modifyTop fun _ => g f := by
  apply ext_frames
  rw [frames_modifyTop h, frames_modifyTop h]

end CallStack

namespace Machine

/-- The machine with `f` for its current frame. -/
def withTop (m : Machine) (f : Frame) : Machine :=
  { m with calls := m.calls.modifyTop fun _ => f }

@[simp] lemma withTop_registers (m : Machine) (f : Frame) :
    (m.withTop f).registers = m.registers := rfl

@[simp] lemma withTop_limits (m : Machine) (f : Frame) : (m.withTop f).limits = m.limits := rfl

@[simp] lemma withTop_heap (m : Machine) (f : Frame) : (m.withTop f).heap = m.heap := rfl

variable {m : Machine} {f : Frame} {below : List Frame}

lemma frames_withTop (h : m.frames = f :: below) (f' : Frame) :
    (m.withTop f').frames = f' :: below :=
  CallStack.frames_modifyTop h fun _ => f'

/-- The last of several current frames is the one that counts. -/
lemma withTop_withTop (h : m.frames = f :: below) (f₁ f₂ : Frame) :
    (m.withTop f₁).withTop f₂ = m.withTop f₂ := by
  have hc : (m.withTop f₁).calls.modifyTop (fun _ => f₂) = m.calls.modifyTop fun _ => f₂ := by
    apply CallStack.ext_frames
    rw [CallStack.frames_modifyTop (frames_withTop h f₁), CallStack.frames_modifyTop h]
  rw [withTop, hc]
  rfl

/-- A change of the current frame, in terms of what it makes of that frame. -/
lemma modifyTop_eq_withTop (h : m.frames = f :: below) (g : Frame → Frame) :
    { m with calls := m.calls.modifyTop g } = m.withTop (g f) := by
  rw [withTop, CallStack.modifyTop_eq h g]

end Machine

/-! ### Runs -/

namespace Exec

variable {m : Machine} {f : Frame} {below : List Frame}

lemma get_run (m : Machine) : (get : Exec Machine) m = .ok m m :=
  rfl

lemma frame_run (h : m.frames = f :: below) : frame m = .ok f m := by
  rw [frame, bind_of_ok (get_run m), h]
  rfl

/-- A change of the current frame does not fail where there is one. -/
lemma modifyFrame_run (h : m.frames = f :: below) (g : Frame → Frame) :
    modifyFrame g m = .ok () (m.withTop (g f)) := by
  rw [← Machine.modifyTop_eq_withTop h g, modifyFrame, bind_of_ok (get_run m), h]
  rfl

lemma pop_run (h : m.frames = f :: below) :
    pop m = match f.stack with
      | v :: vs => .ok v (m.withTop { f with stack := vs })
      | [] => .error (.internal .stackUnderflow) m := by
  rw [pop, bind_of_ok (frame_run h)]
  cases f.stack with
  | nil => rfl
  | cons v vs => exact bind_of_ok (modifyFrame_run h _)

lemma popN_run (h : m.frames = f :: below) (n : Nat) :
    popN n m =
      if n ≤ f.stack.length then
        .ok (f.stack.take n).reverse (m.withTop { f with stack := f.stack.drop n })
      else .error (.internal .stackUnderflow) m := by
  rw [popN, bind_of_ok (frame_run h), Frame.popN?]
  by_cases hn : n ≤ f.stack.length
  · simp only [hn, if_true]
    exact bind_of_ok (modifyFrame_run h _)
  · simp only [hn, if_false]
    rfl

/-- A value that was popped was on top. -/
lemma pop_ok {m' : Machine} {v : Value} (h : m.frames = f :: below) (hp : pop m = .ok v m') :
    ∃ vs, f.stack = v :: vs ∧ m' = m.withTop { f with stack := vs } := by
  rw [pop_run h] at hp
  cases hs : f.stack with
  | nil =>
      rw [hs] at hp
      cases hp
  | cons w ws =>
      rw [hs] at hp
      cases hp
      exact ⟨ws, rfl, rfl⟩

/-- Values that were popped were on top. -/
lemma popN_ok {m' : Machine} {n : Nat} {vs : List Value} (h : m.frames = f :: below)
    (hp : popN n m = .ok vs m') :
    vs = (f.stack.take n).reverse ∧ m' = m.withTop { f with stack := f.stack.drop n } := by
  rw [popN_run h] at hp
  split at hp
  · cases hp
    exact ⟨rfl, rfl⟩
  · cases hp

lemma ofExcept_ok {α : Type} {x : Except Cause α} {m m' : Machine} {a : α}
    (h : ofExcept x m = .ok a m') : x = .ok a ∧ m' = m := by
  cases x with
  | ok b =>
      cases h
      exact ⟨rfl, rfl⟩
  | error c => cases h

lemma rotate_run (h : m.frames = f :: below) (n : Nat) :
    rotate n m = match f.rotate? n with
      | some f' => .ok () (m.withTop f')
      | none => .error (.internal .stackUnderflow) m := by
  rw [rotate, bind_of_ok (frame_run h)]
  cases f.rotate? n with
  | none => rfl
  | some f' => exact modifyFrame_run h _

/-! ### Blocks -/

lemma setupBlock_run (h : m.frames = f :: below) (kind : BlockKind) (handler : Nat) :
    setupBlock kind handler m =
      .ok () (m.withTop { f with blocks := ⟨kind, handler, f.stack.length⟩ :: f.blocks }) :=
  modifyFrame_run h _

lemma popBlock_run (h : m.frames = f :: below) :
    popBlock m = match f.blocks with
      | [] => .error (.cause (.noMatchingBlock "POP_BLOCK")) m
      | b :: rest => .ok () (m.withTop (match b.kind with
          | .finally => { f with blocks := ⟨.cleanup .none, b.handler, f.stack.length⟩ :: rest }
          | _ => { f with blocks := rest })) := by
  rw [popBlock, bind_of_ok (frame_run h)]
  cases f.blocks with
  | nil => rfl
  | cons b rest => exact modifyFrame_run h _

lemma popCleanup_run (h : m.frames = f :: below) (op : String) :
    popCleanup op m = match f.blocks with
      | ⟨.cleanup pending, _, level⟩ :: rest =>
        .ok pending (m.withTop { f with blocks := rest, stack := Frame.cut f.stack level })
      | _ => .error (.cause (.noMatchingBlock op)) m := by
  rw [popCleanup, bind_of_ok (frame_run h)]
  cases f.blocks with
  | nil => rfl
  | cons b rest =>
      obtain ⟨kind, handler, level⟩ := b
      cases kind with
      | cleanup pending => exact bind_of_ok (modifyFrame_run h _)
      | _ => rfl

/-! ### Operations on values -/

/-- An operation on values changes the heap of a machine and nothing else. -/
lemma lift_ok_iff {α : Type} {x : Eval α} {m m' : Machine} {a : α} :
    (liftM x : Exec α) m = .ok a m' ↔ ∃ h, x m.heap = .ok a h ∧ m' = { m with heap := h } := by
  show lift x m = _ ↔ _
  rw [lift]
  cases x m.heap with
  | ok b h =>
      constructor
      · rintro ⟨⟩
        exact ⟨h, rfl, rfl⟩
      · rintro ⟨_, ⟨⟩, rfl⟩
        rfl
  | error c h => simp

/-- An operation on values that fails may have changed the heap, and nothing else. -/
lemma lift_error_iff {α : Type} {x : Eval α} {m m' : Machine} {e : Fault} :
    (liftM x : Exec α) m = .error e m' ↔
      ∃ c h, x m.heap = .error c h ∧ e = .cause c ∧ m' = { m with heap := h } := by
  show lift x m = _ ↔ _
  rw [lift]
  cases x m.heap with
  | ok b h => simp
  | error c h =>
      constructor
      · rintro ⟨⟩
        exact ⟨c, h, rfl, rfl, rfl⟩
      · rintro ⟨_, _, ⟨⟩, rfl, rfl⟩
        rfl

lemma pop_of_stack {v : Value} {vs : List Value} (h : m.frames = f :: below)
    (hs : f.stack = v :: vs) : pop m = .ok v (m.withTop { f with stack := vs }) := by
  rw [pop_run h, hs]

lemma peek_of_stack {v : Value} {vs : List Value} (h : m.frames = f :: below)
    (hs : f.stack = v :: vs) : peek m = .ok v m := by
  rw [peek, bind_of_ok (frame_run h), hs]
  rfl

/-! ### Operations on the two top values -/

section Operate

variable {l r : Value} {rest : List Value} {h' : Heap}

/-- Two values are popped, the top one first. -/
lemma popTwo {α : Type} (g : Value → Value → Exec α) (h : m.frames = f :: below)
    (hs : f.stack = r :: l :: rest) :
    (do let r ← pop; let l ← pop; g l r) m = g l r (m.withTop { f with stack := rest }) := by
  rw [bind_of_ok (pop_of_stack h hs),
    bind_of_ok (pop_of_stack (Machine.frames_withTop h _) rfl), Machine.withTop_withTop h]

/-- The two top values are replaced by the value of an operation on them. -/
lemma operate_of_ok (x : Value → Value → Eval Value) (h : m.frames = f :: below)
    (hs : f.stack = r :: l :: rest) {v : Value} (hx : x l r m.heap = .ok v h') :
    (do let r ← pop; let l ← pop; push (← x l r)) m =
      .ok () ({ m with heap := h' }.withTop { f with stack := v :: rest }) := by
  have hlift : (liftM (x l r) : Exec Value) (m.withTop { f with stack := rest }) =
      .ok v ({ m with heap := h' }.withTop { f with stack := rest }) :=
    lift_ok_iff.mpr ⟨h', hx, rfl⟩
  have hf : ({ m with heap := h' } : Machine).frames = f :: below := h
  rw [popTwo (fun l r => liftM (x l r) >>= push) h hs, bind_of_ok hlift, push,
    modifyFrame_run (Machine.frames_withTop hf _), Machine.withTop_withTop hf]
  rfl

/-- The two top values are gone after an operation on them that fails. -/
lemma operate_of_error (x : Value → Value → Eval Value) (h : m.frames = f :: below)
    (hs : f.stack = r :: l :: rest) {c : Cause} (hx : x l r m.heap = .error c h') :
    (do let r ← pop; let l ← pop; push (← x l r)) m =
      .error (.cause c) ({ m with heap := h' }.withTop { f with stack := rest }) := by
  rw [popTwo (fun l r => liftM (x l r) >>= push) h hs]
  exact bind_error_iff.mpr (.inl (lift_error_iff.mpr ⟨c, h', hx, rfl, rfl⟩))

end Operate

/-! ### Instructions without a signal -/

section Plain

variable {code : CodeObject} {i : Instruction} {op : Opcode} {m' : Machine}

lemma execute_of_perform_ok (hop : i.opcode = some op)
    (hplain : executeOp code i op = perform code i op >>= fun _ => pure none)
    (h : perform code i op m = .ok () m') : execute code i m = .ok none m' := by
  simp only [execute, hop, hplain]
  exact bind_of_ok h

lemma execute_of_perform_error {e : Fault} (hop : i.opcode = some op)
    (hplain : executeOp code i op = perform code i op >>= fun _ => pure none)
    (h : perform code i op m = .error e m') : execute code i m = .error e m' := by
  simp only [execute, hop, hplain]
  exact bind_error_iff.mpr (.inl h)

end Plain

end Exec

end StackVM
