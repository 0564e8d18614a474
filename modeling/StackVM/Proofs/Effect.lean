/-
What an instruction that succeeds does to the frames and the registers, case by case.
It changes the current frame, or enters a frame on top of it, and never touches the
frames below.

* `Effect`: the cases;
* `Exec.execute_effect`: every instruction that succeeds is one of them.
-/
import StackVM.Proofs.Handlers
import StackVM.Proofs.Unwinding

namespace StackVM

/-- Number of operands that lie on top of what a call calls. -/
def Exec.argumentCount (arg : Nat) : Nat :=
  2 * (splitCounts arg).2 + (splitCounts arg).1

/-- What an instruction `i` that succeeds makes of the machine `m`, whose current frame
is `f`, and the signal it asks for. -/
inductive Effect (i : Instruction) (f : Frame) (below : List Frame) (m m' : Machine) :
    Option Signal → Prop where
  /-- The operands and the next offset change. -/
  | moved {stack : List Value} {ip : Nat} (offset : ip = f.ip ∨ i.operand.target? = some ip)
      (frames : m'.frames = { f with stack, ip } :: below)
      (registers : m'.registers = m.registers) : Effect i f below m m' none
  /-- A block is opened. -/
  | opened {block : BlockSetup} {handler : Nat} (target : i.operand.target? = some handler)
      (frames : m'.frames =
        { f with blocks := ⟨.ofSetup block, handler, f.stack.length⟩ :: f.blocks } :: below)
      (registers : m'.registers = m.registers) : Effect i f below m m' none
  /-- A block other than a finally block is closed. -/
  | closed {b : Block} {rest : List Block} (blocks : f.blocks = b :: rest)
      (kind : b.kind ≠ .finally) (frames : m'.frames = { f with blocks := rest } :: below)
      (registers : m'.registers = m.registers) : Effect i f below m m' none
  /-- A finally block is closed; its handler will run with nothing waiting. -/
  | finishing {b : Block} {rest : List Block} (opcode : i.opcode = some .popBlock)
      (blocks : f.blocks = b :: rest) (kind : b.kind = .finally)
      (frames : m'.frames =
        { f with blocks := ⟨.cleanup .none, b.handler, f.stack.length⟩ :: rest } :: below)
      (registers : m'.registers = m.registers) : Effect i f below m m' none
  /-- The end of a handler; what waited for it is dropped. -/
  | dropped {pending : Pending} {handler level : Nat} {rest : List Block}
      (blocks : f.blocks = ⟨.cleanup pending, handler, level⟩ :: rest)
      (frames : m'.frames =
        { f with blocks := rest, stack := Frame.cut f.stack level } :: below)
      (registers : m'.registers = m.registers) : Effect i f below m m' none
  /-- The end of a handler; what waited for it is taken up. -/
  | resumed {pending : Pending} {handler level : Nat} {rest : List Block}
      (blocks : f.blocks = ⟨.cleanup pending, handler, level⟩ :: rest)
      (frames : m'.frames =
        { f with blocks := rest, stack := Frame.cut f.stack level } :: below)
      (registers : m'.registers = pending.fill m.registers) : Effect i f below m m' pending.signal
  /-- The frame of a function is entered. -/
  | called {r : Ref .function} {locals : Ref .namespace} {callee : Frame} {h h' : Heap}
      (opcode : i.opcode = some .callFunction)
      (callable : f.stack[Exec.argumentCount i.arg]? = some (.function r))
      (made : Frame.make (m.heap.function r).code (some (m.heap.function r).globals) (some locals)
        f.builtins (m.heap.function r).closure h = .ok callee h')
      (room : m.limits.checkDepth (below.length + 1) = .ok ())
      (frames : m'.frames =
        callee :: { f with stack := f.stack.drop (Exec.argumentCount i.arg + 1) } :: below)
      (registers : m'.registers = m.registers) : Effect i f below m m' none
  /-- A value is returned. -/
  | returned {v : Value} {stack : List Value} (operand : f.stack = v :: stack)
      (frames : m'.frames = { f with stack } :: below)
      (registers : m'.registers = { m.registers with result := some v }) :
      Effect i f below m m' (some .returning)
  /-- The exception whose handler is running is raised again. -/
  | reraised {r : Raised} (handled : m.frames.findSome? Frame.handled? = some r)
      (frames : m'.frames = f :: below)
      (registers : m'.registers = { m.registers with raised := some r }) :
      Effect i f below m m' (some .raising)
  /-- A loop is left. -/
  | broken (frames : m'.frames = f :: below) (registers : m'.registers = m.registers) :
      Effect i f below m m' (some .breaking)
  /-- A loop goes on. -/
  | continued {target : Nat} (operand : i.operand.target? = some target)
      (frames : m'.frames = f :: below) (registers : m'.registers = m.registers) :
      Effect i f below m m' (some (.continuing target))

namespace Exec

variable {i : Instruction} {f : Frame} {below : List Frame} {m m' : Machine}

lemma enter_of_room (callee : Frame) (hroom : m.limits.checkDepth m.calls.depth = .ok ()) :
    enter callee m =
      .ok () { m.record (.enter callee.code.code.name (m.calls.depth + 1)) with
        calls := m.calls.push callee } := by
  rw [enter, bind_of_ok (get_run m), bind_of_ok (get_run m), hroom]
  rfl

lemma enter_of_full (callee : Frame) {limit : LimitError}
    (hroom : m.limits.checkDepth m.calls.depth = .error limit) :
    enter callee m = .error (.cause limit.cause) m := by
  rw [enter, bind_of_ok (get_run m), bind_of_ok (get_run m), hroom]
  rfl

/-- A frame is entered on top of the others, if the limit allows it. -/
lemma enter_ok {callee : Frame} (h : enter callee m = .ok () m') :
    m.limits.checkDepth m.calls.depth = .ok () ∧ m'.frames = callee :: m.frames ∧
      m'.registers = m.registers := by
  cases hroom : m.limits.checkDepth m.calls.depth with
  | error limit =>
      rw [enter_of_full callee hroom] at h
      cases h
  | ok u =>
      rw [enter_of_room callee hroom] at h
      cases h
      exact ⟨rfl, rfl, rfl⟩

lemma enter_heap {callee : Frame} (h : enter callee m = .ok () m') : m'.heap = m.heap := by
  cases hroom : m.limits.checkDepth m.calls.depth with
  | error limit =>
      rw [enter_of_full callee hroom] at h
      cases h
  | ok u =>
      rw [enter_of_room callee hroom] at h
      cases h
      rfl

/-- A frame that is not entered is refused with a cause, and nothing has changed. -/
lemma enter_error {callee : Frame} {e : Fault} (h : enter callee m = .error e m') :
    (∃ c, e = .cause c) ∧ m' = m := by
  cases hroom : m.limits.checkDepth m.calls.depth with
  | error limit =>
      rw [enter_of_full callee hroom] at h
      cases h
      exact ⟨⟨_, rfl⟩, rfl⟩
  | ok u =>
      rw [enter_of_room callee hroom] at h
      cases h

/-- The frame of a function is entered on top of its caller. -/
lemma enterFunction_ok {fn : Function} {args : Args} (hf : m.frames = f :: below)
    (h : enterFunction fn args m = .ok () m') :
    ∃ locals callee g g',
      Frame.make fn.code (some fn.globals) (some locals) f.builtins fn.closure g =
        .ok callee g' ∧
      m.limits.checkDepth (below.length + 1) = .ok () ∧ m'.frames = callee :: f :: below ∧
      m'.registers = m.registers := by
  obtain ⟨bound, m₁, h₁, h⟩ := bind_ok_iff.mp h
  obtain ⟨g₁, -, hm₁⟩ := lift_ok_iff.mp h₁
  obtain ⟨locals, m₂, h₂, h⟩ := bind_ok_iff.mp h
  obtain ⟨g₂, -, hm₂⟩ := lift_ok_iff.mp h₂
  have hf₂ : m₂.frames = f :: below := by
    rw [hm₂, hm₁]
    exact hf
  rw [bind_of_ok (frame_run hf₂)] at h
  obtain ⟨callee, m₃, h₃, h⟩ := bind_ok_iff.mp h
  obtain ⟨g₃, hmake, hm₃⟩ := lift_ok_iff.mp h₃
  obtain ⟨hroom, hframes, hregs⟩ := enter_ok h
  rw [hm₃, hm₂, hm₁] at hroom hframes hregs
  refine ⟨locals, callee, _, g₃, hmake, ?_, hframes.trans (congrArg _ hf), hregs⟩
  have hdepth : m.calls.depth = below.length + 1 := by
    rw [m.calls.depth_eq, ← List.length_cons, ← hf]
    rfl
  rw [← hdepth]
  exact hroom

/-- What moves the current frame has that effect. -/
lemma effect_of_moved {target : Option Nat} (h : Machine.MovedFrom target f below m m')
    (htarget : ∀ t, target = some t → i.operand.target? = some t) :
    Effect i f below m m' none := by
  obtain ⟨⟨stack, ip, hip, hframes⟩, hregs, -⟩ := h
  exact .moved (hip.imp_right (htarget ip)) hframes hregs

/-- A call enters the frame of a function, or moves the caller. -/
lemma callFunction_effect (hop : i.opcode = some .callFunction) (hf : m.frames = f :: below)
    (h : callFunction i.arg m = .ok () m') : Effect i f below m m' none := by
  obtain ⟨pairs, m₁, h₁, h⟩ := bind_ok_iff.mp h
  have hm₁ := (popN_ok hf h₁).2
  obtain ⟨keywords, m₂, h₂, h⟩ := bind_ok_iff.mp h
  have hm₂ := (ofExcept_ok h₂).2.trans hm₁
  have hf₂ := hm₂ ▸ Machine.frames_withTop hf _
  obtain ⟨positional, m₃, h₃, h⟩ := bind_ok_iff.mp h
  have hm₃ := (popN_ok hf₂ h₃).2
  have hf₃ := hm₃ ▸ Machine.frames_withTop hf₂ _
  obtain ⟨v, m₄, h₄, h⟩ := bind_ok_iff.mp h
  obtain ⟨vs, hvs, hm₄⟩ := pop_ok hf₃ h₄
  -- the callable lay under the arguments, and the machine has lost just these operands
  have hdrop : f.stack.drop (argumentCount i.arg) = v :: vs := by
    rw [← hvs, List.drop_drop]
    rfl
  have hm : m₄ = m.withTop { f with stack := vs } := by
    rw [hm₄, hm₃, Machine.withTop_withTop hf₂, hm₂, Machine.withTop_withTop hf]
  have hf₄ : m₄.frames = { f with stack := vs } :: below := hm ▸ Machine.frames_withTop hf _
  have hr₄ : m₄.registers = m.registers := by rw [hm, Machine.withTop_registers]
  have atOnce : ∀ x : Exec Unit, Acts none x → x m₄ = .ok () m' → Effect i f below m m' none := by
    intro x hx hx'
    obtain ⟨⟨stack, ip, hip, hframes⟩, hregs, -⟩ := hx.results m₄ () m' hx' _ below hf₄
    exact .moved (.inl (hip.resolve_right nofun)) hframes (hregs.trans hr₄)
  cases v with
  | function r =>
      obtain ⟨hp, m₅, h₅, h⟩ := bind_ok_iff.mp h
      cases h₅
      obtain ⟨locals, callee, g, g', hmake, hroom, hframes, hregs⟩ := enterFunction_ok hf₄ h
      have hcall : f.stack[argumentCount i.arg]? = some (.function r) := by
        rw [← List.head?_drop, hdrop]
        rfl
      have hrest : f.stack.drop (argumentCount i.arg + 1) = vs := by
        rw [← List.drop_drop, hdrop]
        rfl
      rw [hm, Machine.withTop_heap] at hmake
      rw [hm, Machine.withTop_limits] at hroom
      refine .called hop hcall hmake hroom ?_ (hregs.trans hr₄)
      rw [hframes, hrest]
  | builtin b => exact atOnce _ (callBuiltin_acts b _) h
  | excClass c => exact atOnce _ (callClass_acts c _) h
  | _ => cases h

/-- The closing of a cleanup block, and what waited in it. -/
lemma popCleanup_ok {op : String} {pending : Pending} (hf : m.frames = f :: below)
    (h : popCleanup op m = .ok pending m') :
    ∃ handler level rest, f.blocks = ⟨.cleanup pending, handler, level⟩ :: rest ∧
      m' = m.withTop { f with blocks := rest, stack := Frame.cut f.stack level } := by
  rw [popCleanup_run hf] at h
  cases hb : f.blocks with
  | nil =>
      rw [hb] at h
      cases h
  | cons b rest =>
      obtain ⟨kind, handler, level⟩ := b
      rw [hb] at h
      cases kind with
      | cleanup waiting =>
          cases h
          exact ⟨handler, level, rest, rfl, rfl⟩
      | _ => cases h

lemma endFinally_effect {s : Option Signal} (hf : m.frames = f :: below)
    (h : endFinally m = .ok s m') : Effect i f below m m' s := by
  obtain ⟨pending, m₁, h₁, h⟩ := bind_ok_iff.mp h
  obtain ⟨handler, level, rest, hblocks, hm₁⟩ := popCleanup_ok hf h₁
  have hframes := Machine.frames_withTop hf
    { f with blocks := rest, stack := Frame.cut f.stack level }
  -- the signal and the registers are those of what waited, whichever it was
  cases pending with
  | none =>
      cases h
      exact hm₁ ▸ .resumed hblocks hframes rfl
  | returning v =>
      cases h
      rw [hm₁]
      exact .resumed hblocks hframes rfl
  | raising r =>
      cases h
      rw [hm₁]
      exact .resumed hblocks hframes rfl
  | breaking =>
      cases h
      exact hm₁ ▸ .resumed hblocks hframes rfl
  | continuing target =>
      cases h
      exact hm₁ ▸ .resumed hblocks hframes rfl

lemma popBlock_effect (hop : i.opcode = some .popBlock) (hf : m.frames = f :: below)
    (h : popBlock m = .ok () m') : Effect i f below m m' none := by
  rw [popBlock_run hf] at h
  cases hb : f.blocks with
  | nil =>
      rw [hb] at h
      cases h
  | cons b rest =>
      rw [hb] at h
      cases h
      cases hk : b.kind with
      | «finally» => exact .finishing hop hb hk (Machine.frames_withTop hf _) rfl
      | _ => exact .closed hb (by rw [hk]; nofun) (Machine.frames_withTop hf _) rfl

/-- Only the exception whose handler is running can be raised by a signal; one that is
made by the instruction is a fault. -/
lemma raiseVarargs_effect {count : Nat} {s : Option Signal} (hf : m.frames = f :: below)
    (h : raiseVarargs count m = .ok s m') : Effect i f below m m' s := by
  match count with
  | 0 =>
      obtain ⟨m₁, m₂, h₁, h⟩ := bind_ok_iff.mp h
      cases h₁
      cases hr : m.frames.findSome? Frame.handled? with
      | none =>
          rw [hr] at h
          cases h
      | some r =>
          rw [hr] at h
          cases h
          exact .reraised hr hf rfl
  | 1 =>
      obtain ⟨v, m₁, -, h⟩ := bind_ok_iff.mp h
      obtain ⟨e, m₂, -, h⟩ := bind_ok_iff.mp h
      cases h
  | 2 =>
      obtain ⟨arg, m₁, -, h⟩ := bind_ok_iff.mp h
      obtain ⟨v, m₂, -, h⟩ := bind_ok_iff.mp h
      obtain ⟨e, m₃, -, h⟩ := bind_ok_iff.mp h
      cases h
  | n + 3 => cases h

lemma operand_ok {α : Type} {found : Option α} {a : α} (h : operand i found m = .ok a m') :
    found = some a ∧ m' = m := by
  cases found with
  | none => cases h
  | some b =>
      cases h
      exact ⟨rfl, rfl⟩

lemma perform_effect {code : CodeObject} {op : Opcode} (hop : i.opcode = some op)
    (hf : m.frames = f :: below) (h : perform code i op m = .ok () m') :
    Effect i f below m m' none := by
  rcases perform_acts code i op with hacts | ⟨block, rfl⟩ | rfl | rfl | rfl
  · exact effect_of_moved (hacts.results m () m' h f below hf) fun _ ht => ht
  · obtain ⟨t, m₁, h₁, h₂⟩ := bind_ok_iff.mp h
    obtain ⟨ht, hm₁⟩ := operand_ok h₁
    rw [hm₁, setupBlock_run hf] at h₂
    cases h₂
    exact .opened ht (Machine.frames_withTop hf _) rfl
  · exact popBlock_effect hop hf h
  · obtain ⟨pending, m₁, h₁, h⟩ := bind_ok_iff.mp h
    obtain ⟨handler, level, rest, hblocks, hm₁⟩ := popCleanup_ok hf h₁
    cases h
    exact hm₁ ▸ .dropped hblocks (Machine.frames_withTop hf _) rfl
  · exact callFunction_effect hop hf h

lemma executeOp_effect {code : CodeObject} {op : Opcode} {s : Option Signal}
    (hop : i.opcode = some op) (hf : m.frames = f :: below)
    (h : executeOp code i op m = .ok s m') : Effect i f below m m' s := by
  have plain : ∀ {s'}, (perform code i op >>= fun _ => pure none : Exec (Option Signal)) m =
      .ok s' m' → Effect i f below m m' s' := by
    intro s' h'
    obtain ⟨u, m₁, h₁, h'⟩ := bind_ok_iff.mp h'
    cases h'
    exact perform_effect hop hf h₁
  cases op with
  | endFinally => exact endFinally_effect hf h
  | breakLoop =>
      cases h
      exact .broken hf rfl
  | continueLoop =>
      obtain ⟨t, m₁, h₁, h₂⟩ := bind_ok_iff.mp h
      obtain ⟨ht, hm₁⟩ := operand_ok h₁
      cases h₂
      rw [hm₁]
      exact .continued ht hf rfl
  | returnValue =>
      obtain ⟨v, m₁, h₁, h⟩ := bind_ok_iff.mp h
      obtain ⟨vs, hvs, hm₁⟩ := pop_ok hf h₁
      cases h
      rw [hm₁]
      exact .returned hvs (Machine.frames_withTop hf _) rfl
  | raiseVarargs => exact raiseVarargs_effect hf h
  | _ => exact plain h

/-- **Every instruction that succeeds** has one of the effects. -/
theorem execute_effect {code : CodeObject} {s : Option Signal} (hf : m.frames = f :: below)
    (h : execute code i m = .ok s m') : Effect i f below m m' s := by
  rw [execute] at h
  cases hop : i.opcode with
  | none =>
      rw [hop] at h
      cases h
  | some op =>
      rw [hop] at h
      exact executeOp_effect hop hf h

end Exec

end StackVM
