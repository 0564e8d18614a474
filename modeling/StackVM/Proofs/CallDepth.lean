/-
The limit of active frames. A run keeps the limit it starts with, and never has more frames than
that allows. A call of a function whose arguments bind enters a frame as long as there is room. It
is refused when there is none: then an exception is raised in the caller, at the call, and no frame
has been added or taken away.

* `Exec.execute_limits`, `Moment.iterate_limits`: the limit stays;
* `Moment.iterate_length_le`: **the number of frames** is within the limit;
* `Moment.CallsBound`, `Moment.Refused`, `Moment.Entered`: a call, and the two ways it goes;
* `Moment.CallsBound.refused`, `Moment.CallsBound.entered`: which of them it is;
* `Moment.Reachable.programRaises`: without a limit such exceptions come from the program alone;
* `recursion_limit_bounds_frames`: what that says of runs.
-/
import StackVM.Proofs.Closures
import StackVM.Proofs.DepthFaults
import StackVM.Proofs.Propagation
import StackVM.Proofs.RaisedOrigins

namespace StackVM

/-! ### The limit stays -/

/-- The machine has the limits that it had. -/
def Machine.SameLimits (m m' : Machine) : Prop :=
  m'.limits = m.limits

instance : IsPreorder Machine Machine.SameLimits where
  refl _ := rfl
  trans _ _ _ h h' := Eq.trans h' h

namespace Exec

open Machine

variable {α : Type} {i : Instruction} {f : Frame} {below : List Frame} {m m' : Machine}

lemma lift_limits (x : Eval α) : Outcomes SameLimits (liftM x : Exec α) := by
  refine ⟨?_, ?_⟩
  · intro m a m' h
    obtain ⟨g, -, rfl⟩ := lift_ok_iff.mp h
    rfl
  · intro m e m' h
    obtain ⟨c, g, -, -, rfl⟩ := lift_error_iff.mp h
    rfl

lemma frame_limits : Outcomes SameLimits frame := by
  refine Outcomes.get.bind fun m => ?_
  split
  · exact .pure _
  · exact .throw _

lemma modifyFrame_limits (g : Frame → Frame) : Outcomes SameLimits (modifyFrame g) := by
  refine Outcomes.get.bind fun m => ?_
  split
  · exact .modifyGet fun m => rfl
  · exact .throw _

lemma ofExcept_limits (x : Except Cause α) : Outcomes SameLimits (ofExcept x) := by
  cases x with
  | ok a => exact .pure a
  | error c => exact .throw _

lemma pop_limits : Outcomes SameLimits pop := by
  refine frame_limits.bind fun f => ?_
  split
  · exact (modifyFrame_limits _).bind fun _ => .pure _
  · exact .throw _

lemma popN_limits (n : Nat) : Outcomes SameLimits (popN n) := by
  refine frame_limits.bind fun f => ?_
  split
  · exact (modifyFrame_limits _).bind fun _ => .pure _
  · exact .throw _

lemma enter_limits (callee : Frame) : Outcomes SameLimits (enter callee) := by
  refine Outcomes.get.bind fun m => Outcomes.get.bind fun m' => ?_
  split
  · exact .throw _
  · exact .modifyGet fun m => rfl

lemma callFunction_limits (arg : Nat) : Outcomes SameLimits (callFunction arg) := by
  refine (popN_limits _).bind fun pairs => (ofExcept_limits _).bind fun keywords => ?_
  refine (popN_limits _).bind fun positional => pop_limits.bind fun v => ?_
  cases v with
  | function r =>
      refine Outcomes.get.bind fun h => (lift_limits _).bind fun bound => ?_
      refine (lift_limits _).bind fun locals => frame_limits.bind fun caller => ?_
      exact (lift_limits _).bind enter_limits
  | builtin b =>
      refine (lift_limits _).bind fun result => ?_
      exact Outcomes.bind (.modifyGet fun m => rfl) fun _ => modifyFrame_limits _
  | excClass c => exact (lift_limits _).bind fun v => modifyFrame_limits _
  | _ => exact .throw _

lemma popCleanup_limits (op : String) : Outcomes SameLimits (popCleanup op) := by
  refine frame_limits.bind fun f => ?_
  split
  · exact (modifyFrame_limits _).bind fun _ => .pure _
  · exact .throw _

lemma popBlock_limits : Outcomes SameLimits popBlock := by
  refine frame_limits.bind fun f => ?_
  split
  · exact .throw _
  · exact modifyFrame_limits _

/-- Only the exception whose handler is running is raised without a fault. -/
lemma raiseVarargs_limits {count : Nat} {s : Option Signal}
    (h : raiseVarargs count m = .ok s m') : m'.limits = m.limits := by
  rw [raiseVarargs.eq_def] at h
  split at h
  · obtain ⟨m₁, m₂, h₁, h⟩ := bind_ok_iff.mp h
    cases h₁
    cases hr : m.frames.findSome? Frame.handled? with
    | none =>
        rw [hr] at h
        cases h
    | some r =>
        rw [hr] at h
        cases h
        rfl
  · obtain ⟨v, m₁, -, h⟩ := bind_ok_iff.mp h
    obtain ⟨e, m₂, -, h⟩ := bind_ok_iff.mp h
    cases h
  · obtain ⟨arg, m₁, -, h⟩ := bind_ok_iff.mp h
    obtain ⟨v, m₂, -, h⟩ := bind_ok_iff.mp h
    obtain ⟨e, m₃, -, h⟩ := bind_ok_iff.mp h
    cases h
  · cases h

lemma perform_limits {code : CodeObject} {op : Opcode} (hf : m.frames = f :: below)
    (h : perform code i op m = .ok () m') : m'.limits = m.limits := by
  rcases perform_acts code i op with hacts | ⟨block, rfl⟩ | rfl | rfl | rfl
  · exact (hacts.results m () m' h f below hf).limits
  · obtain ⟨t, m₁, h₁, h₂⟩ := bind_ok_iff.mp h
    rw [(operand_ok h₁).2] at h₂
    exact (modifyFrame_limits _).results m () m' h₂
  · exact popBlock_limits.results m () m' h
  · exact ((popCleanup_limits _).map _).results m () m' h
  · exact (callFunction_limits _).results m () m' h

/-- **An instruction** leaves the limits as they are. -/
lemma execute_limits {code : CodeObject} {s : Option Signal} (hf : m.frames = f :: below)
    (h : execute code i m = .ok s m') : m'.limits = m.limits := by
  rw [execute] at h
  cases hop : i.opcode with
  | none =>
      rw [hop] at h
      cases h
  | some op =>
      rw [hop] at h
      have plain : ∀ {s'}, (perform code i op >>= fun _ => pure none : Exec (Option Signal)) m =
          .ok s' m' → m'.limits = m.limits := by
        intro s' h'
        obtain ⟨u, m₁, h₁, h'⟩ := bind_ok_iff.mp h'
        cases h'
        exact perform_limits hf h₁
      cases op with
      | endFinally =>
          obtain ⟨pending, m₁, h₁, h⟩ := bind_ok_iff.mp h
          have hlimits := (popCleanup_limits _).results m pending m₁ h₁
          cases pending <;> cases h <;> exact hlimits
      | breakLoop =>
          cases h
          rfl
      | continueLoop =>
          obtain ⟨t, m₁, h₁, h₂⟩ := bind_ok_iff.mp h
          cases h₂
          rw [(operand_ok h₁).2]
      | returnValue =>
          obtain ⟨v, m₁, h₁, h⟩ := bind_ok_iff.mp h
          cases h
          exact pop_limits.results m v m₁ h₁
      | raiseVarargs => exact raiseVarargs_limits h
      | _ => exact plain h

end Exec

namespace Machine

lemma unwind_limits (m : Machine) (s : Signal) : (m.unwind s).1.limits = m.limits := by
  rw [unwind]
  split
  · rfl
  · dsimp only
    split <;> rfl

lemma popFrame_limits (m : Machine) (s : Signal) : (m.popFrame s).1.limits = m.limits := by
  rw [popFrame]
  split
  · rfl
  · cases s with
    | raising =>
        dsimp only
        split <;> rfl
    | _ => rfl

end Machine

/-- An instruction adds a frame only if there is room for one. -/
lemma Effect.length_cases {i : Instruction} {f : Frame} {below : List Frame} {m m' : Machine}
    {s : Option Signal} (h : Effect i f below m m' s) :
    m'.frames.length = below.length + 1 ∨
      m'.frames.length = below.length + 2 ∧ m.limits.checkDepth (below.length + 1) = .ok () := by
  cases h with
  | called _ _ _ room frames _ => exact .inr ⟨congrArg List.length frames, room⟩
  | moved _ frames _ => exact .inl (congrArg List.length frames)
  | opened _ frames _ => exact .inl (congrArg List.length frames)
  | closed _ _ frames _ => exact .inl (congrArg List.length frames)
  | finishing _ _ _ frames _ => exact .inl (congrArg List.length frames)
  | dropped _ frames _ => exact .inl (congrArg List.length frames)
  | resumed _ frames _ => exact .inl (congrArg List.length frames)
  | returned _ frames _ => exact .inl (congrArg List.length frames)
  | reraised _ frames _ => exact .inl (congrArg List.length frames)
  | broken frames _ => exact .inl (congrArg List.length frames)
  | continued _ frames _ => exact .inl (congrArg List.length frames)

namespace Moment

variable {x : Moment} {l : Loop} {m : Machine} {f : Frame} {below : List Frame} {n k : Nat}

/-- From one moment to the next the limits stay. -/
lemma next_limits (h : x.Current) : x.next.machine.limits = x.machine.limits := by
  cases x with
  | stepping l =>
      obtain ⟨f, below, hin⟩ := h
      cases hd : f.code.code.decode f.ip with
      | error e =>
          rw [next_stepping_undecodable hin.frames (hin.code ▸ hd)]
          rfl
      | ok i =>
          have hfetched := hin.frames_fetched i
          rw [machine_next_stepping hin hd, Machine.dispatch]
          cases hrun : Exec.execute l.code i (l.fetched i) with
          | ok s m' =>
              have hlimits := Exec.execute_limits hfetched hrun
              exact hlimits
          | error e m' => exact (Exec.execute_failures _ _ _ _ _ hrun _ _ hfetched).limits
  | offering l s =>
      have hlimits := l.machine.unwind_limits s
      rcases hu : l.machine.unwind s with ⟨m', s'⟩
      rw [hu] at hlimits
      cases s' with
      | none =>
          rw [next_offering_taken hu, machine_resume]
          exact hlimits
      | some s' =>
          rw [next_offering_escaped hu]
          exact hlimits
  | leaving m s =>
      have hlimits := m.popFrame_limits s
      rcases hpop : m.popFrame s with ⟨m', result⟩
      rw [hpop] at hlimits
      cases hf : m'.frames with
      | nil =>
          rw [next_leaving_last hpop hf]
          exact hlimits
      | cons f below =>
          cases result with
          | ok v =>
              rw [next_leaving_ok hpop hf, machine_enter]
              exact hlimits
          | error e =>
              rw [next_leaving_error hpop hf]
              exact hlimits
  | ended m result => rfl

lemma start_limits (m : Machine) (code : CodeObject) (globals locals : Option (Ref .namespace)) :
    (ofTurn (m.start code globals locals)).machine.limits = m.limits := by
  have hfirst : Outcomes Machine.SameLimits
      (liftM (Frame.make code globals locals m.builtins []) >>= Exec.enter : Exec Unit) :=
    (Exec.lift_limits _).bind Exec.enter_limits
  rw [Machine.start]
  split
  next m' h =>
    have hlimits := hfirst.results { m with calls := .empty, registers := {} } () m' h
    rw [machine_enter]
    exact hlimits
  next e m' h =>
    have hlimits := hfirst.failures { m with calls := .empty, registers := {} } e m' h
    exact hlimits

/-- **A run keeps the limits** it starts with. -/
lemma iterate_limits (m : Machine) (code : CodeObject) (globals locals : Option (Ref .namespace))
    (k : Nat) : (next^[k] (ofTurn (m.start code globals locals))).machine.limits = m.limits := by
  induction k with
  | zero => exact start_limits m code globals locals
  | succ k ih =>
      have hreach := reachable_iterate (.start m code globals locals) k
      rw [Function.iterate_succ_apply', next_limits hreach.current, ih]

/-! ### The number of frames -/

/-- A moment adds no frame to as many as the limit allows. -/
lemma Transition.length_le {x y : Moment} (h : Transition x y)
    (hlimit : x.machine.limits.depth = some n) (hx : x.frames.length ≤ n) :
    y.frames.length ≤ n := by
  have effect_le : ∀ {i : Instruction} {l : Loop} {f : Frame} {below : List Frame} {m' : Machine}
      {s : Option Signal}, l.InFrame f below → l.machine.limits.depth = some n →
      l.machine.frames.length ≤ n → Effect i (f.fetched i) below (l.fetched i) m' s →
      m'.frames.length ≤ n := by
    intro i l f below m' s hin hlimit hle heffect
    rw [hin.frames, List.length_cons] at hle
    rcases heffect.length_cases with hsame | ⟨hmore, hroom⟩
    · exact hsame ▸ hle
    · have hlt := Exec.checkDepth_ok_iff.mp hroom n hlimit
      omega
  have hframes : ∀ z : Moment, z.frames.length = z.machine.frames.length := fun _ => rfl
  cases h with
  | undecodable inside _ frames _ =>
      simp only [hframes, machine, inside.frames, frames, List.length_cons] at hx ⊢
      omega
  | failed inside _ inside' _ =>
      simp only [hframes, machine, inside.frames, inside'.frames, List.length_cons] at hx ⊢
      omega
  | signalled inside _ effect _ => exact effect_le inside hlimit hx effect
  | executed inside _ effect _ => exact effect_le inside hlimit hx effect
  | taken inside _ inside' _ =>
      simp only [hframes, machine, inside.frames, inside'.frames, List.length_cons] at hx ⊢
      omega
  | escaped inside _ frames _ =>
      simp only [hframes, machine, inside.frames, frames, List.length_cons] at hx ⊢
      omega
  | returned frames _ inside' _ =>
      simp only [hframes, machine, frames, inside'.frames, List.length_cons] at hx ⊢
      omega
  | raised frames _ inside' _ =>
      simp only [hframes, machine, frames, inside'.frames, List.length_cons] at hx ⊢
      omega
  | finished _ _ frames' =>
      simp only [hframes, machine, frames', List.length_nil]
      omega
  | ended => exact hx

/-- A run enters the frame of its code, or ends if there is no room for it. -/
lemma start_run (m : Machine) (code : CodeObject) (globals locals : Option (Ref .namespace)) :
    ∃ f h,
      (∀ m', Exec.enter f { m with calls := .empty, registers := {}, heap := h } = .ok () m' →
        m.start code globals locals = Loop.enter m') ∧
      ∀ e m', Exec.enter f { m with calls := .empty, registers := {}, heap := h } = .error e m' →
        m.start code globals locals = .ended m' (.error e) := by
  obtain ⟨f, h, hmake⟩ := Frame.make_succeeds code globals locals m.builtins [] m.heap
  have hlift : (liftM (Frame.make code globals locals m.builtins []) : Exec Frame)
      { m with calls := .empty, registers := {} } =
        .ok f { m with calls := .empty, registers := {}, heap := h } :=
    Exec.lift_ok_iff.mpr ⟨h, hmake, rfl⟩
  refine ⟨f, h, fun m' henter => ?_, fun e m' henter => ?_⟩
  · simp only [Machine.start, bind_of_ok hlift, henter]
  · simp only [Machine.start, bind_of_ok hlift, henter]

lemma start_of_room (code : CodeObject) (globals locals : Option (Ref .namespace))
    (hroom : m.limits.depth ≠ some 0) :
    ∃ l f, m.start code globals locals = .running l ∧ l.InFrame f [] := by
  obtain ⟨f, h, hstart, -⟩ := start_run m code globals locals
  have hempty : m.limits.checkDepth 0 = .ok () :=
    Exec.checkDepth_ok_iff.mpr fun n hn => Nat.pos_of_ne_zero fun hzero => hroom (hzero ▸ hn)
  exact ⟨_, f, hstart _ (Exec.enter_of_room f hempty), rfl, rfl, rfl⟩

/-- Where no frame is allowed a run ends before it has started. -/
lemma start_of_none (code : CodeObject) (globals locals : Option (Ref .namespace))
    (hlimit : m.limits.depth = some 0) :
    ∃ h, m.start code globals locals =
      .ended { m with calls := .empty, registers := {}, heap := h }
        (.error (.cause .recursionLimit)) := by
  obtain ⟨f, h, -, hended⟩ := start_run m code globals locals
  have hfull : m.limits.checkDepth 0 = .error (.depth 0) :=
    Exec.checkDepth_error_iff.mpr ⟨0, hlimit, Nat.le_refl 0, rfl⟩
  refine ⟨h, hended _ _ ?_⟩
  rw [Exec.enter_of_full f hfull]
  rfl

/-- A run starts with one frame, or with none where none is allowed. -/
lemma start_length_le (code : CodeObject) (globals locals : Option (Ref .namespace))
    (hlimit : m.limits.depth = some n) :
    (ofTurn (m.start code globals locals)).frames.length ≤ n := by
  cases n with
  | zero =>
      obtain ⟨h, hstart⟩ := start_of_none code globals locals hlimit
      rw [hstart]
      exact Nat.le_refl 0
  | succ n =>
      have hroom : m.limits.depth ≠ some 0 := by
        rw [hlimit]
        exact fun h => Nat.succ_ne_zero n (Option.some.inj h)
      obtain ⟨l, f, hstart, hin⟩ := start_of_room code globals locals hroom
      have hlength : (stepping l).frames.length = 1 := congrArg List.length hin.frames
      rw [hstart]
      show (stepping l).frames.length ≤ n + 1
      omega

/-- **All along a run** there are no more frames than the limit allows. -/
theorem iterate_length_le (code : CodeObject) (globals locals : Option (Ref .namespace))
    (hlimit : m.limits.depth = some n) (k : Nat) :
    (next^[k] (ofTurn (m.start code globals locals))).frames.length ≤ n := by
  induction k with
  | zero => exact start_length_le code globals locals hlimit
  | succ k ih =>
      have hreach := reachable_iterate (.start m code globals locals) k
      rw [Function.iterate_succ_apply']
      exact hreach.transition.length_le ((iterate_limits m code globals locals k).symm ▸ hlimit) ih

end Moment

/-! ### Calls -/

/-- The frame after a call has taken its operands. -/
def Frame.afterCall (f : Frame) (i : Instruction) : Frame :=
  { f.fetched i with stack := f.stack.drop (Exec.argumentCount i.arg + 1) }

lemma Value.eq_function_of_same {v : Value} {r : Ref .function}
    (h : v.same (.function r) = true) : v = .function r := by
  cases v with
  | function r' => exact congrArg Value.function (beq_iff_eq.mp h)
  | _ => cases h

namespace Exec

variable {m : Machine} {f : Frame} {below : List Frame} {bound : List (String × Value)} {h : Heap}

/-- A function whose arguments bind gets a frame, if there is room for it. -/
lemma enterFunction_run {fn : Function} {args : Args} (hf : m.frames = f :: below)
    (hbind : fn.code.code.signature.bind fn.code.code.name fn.defaults fn.kwdefaults args m.heap =
      .ok bound h) :
    ∃ callee g, callee.code = fn.code ∧ callee.ip = 0 ∧
      enterFunction fn args m = enter callee { m with heap := g } := by
  have hbound : (liftM (fn.code.code.signature.bind fn.code.code.name fn.defaults fn.kwdefaults
      args) : Exec _) m = .ok bound { m with heap := h } :=
    lift_ok_iff.mpr ⟨h, hbind, rfl⟩
  obtain ⟨g, hg⟩ : ∃ g, g = { h with namespaces := h.namespaces.alloc (.ofList bound) } := ⟨_, rfl⟩
  have hlocals : (liftM (Eval.newNamespace (.ofList bound)) : Exec _) { m with heap := h } =
      .ok h.namespaces.next { m with heap := g } :=
    lift_ok_iff.mpr ⟨g, hg ▸ rfl, rfl⟩
  have hframe : frame { m with heap := g } = .ok f { m with heap := g } := frame_run hf
  obtain ⟨callee, g', hmake⟩ := Frame.make_succeeds fn.code (some fn.globals)
    (some h.namespaces.next) f.builtins fn.closure g
  have hcallee : (liftM (Frame.make fn.code (some fn.globals) (some h.namespaces.next) f.builtins
      fn.closure) : Exec _) { m with heap := g } = .ok callee { m with heap := g' } :=
    lift_ok_iff.mpr ⟨g', hmake, rfl⟩
  obtain ⟨hcode, -, -, hip, -⟩ := Frame.make_ok hmake
  refine ⟨callee, g', hcode, hip, ?_⟩
  rw [enterFunction, bind_of_ok hbound, bind_of_ok hlocals, bind_of_ok hframe,
    bind_of_ok hcallee]

/-- The arguments of a call are those on the stack, with their keywords. -/
lemma arguments_ok {arg : Nat} {stack : List Value} {args : Args}
    (h : arguments arg stack = .ok args) :
    ∃ keywords, Keyword.ofPairs (stack.take (2 * (splitCounts arg).2)).reverse = .ok keywords ∧
      args =
        { positional := ((stack.drop (2 * (splitCounts arg).2)).take (splitCounts arg).1).reverse
          keywords } := by
  cases hk : Keyword.ofPairs (stack.take (2 * (splitCounts arg).2)).reverse with
  | error c =>
      have hfail : arguments arg stack = .error c := by
        show (Keyword.ofPairs (stack.take (2 * (splitCounts arg).2)).reverse >>= _) = _
        rw [hk]
        rfl
      rw [hfail] at h
      cases h
  | ok keywords =>
      rw [arguments_of_ofPairs hk] at h
      exact ⟨keywords, rfl, (Except.ok.inj h).symm⟩

/-- A call of a function whose arguments bind takes its operands, and gets a frame if there is
room for it. -/
lemma callFunction_run {arg : Nat} {r : Ref .function} {args : Args}
    (hf : m.frames = f :: below) (hcall : f.stack[argumentCount arg]? = some (.function r))
    (hargs : arguments arg f.stack = .ok args)
    (hbind : (m.heap.function r).code.code.signature.bind (m.heap.function r).code.code.name
      (m.heap.function r).defaults (m.heap.function r).kwdefaults args m.heap = .ok bound h) :
    ∃ callee g, callee.code = (m.heap.function r).code ∧ callee.ip = 0 ∧
      callFunction arg m = enter callee
        { m.withTop { f with stack := f.stack.drop (argumentCount arg + 1) } with heap := g } := by
  obtain ⟨hlength, hget⟩ := List.getElem?_eq_some_iff.mp hcall
  obtain ⟨keywords, hkeywords, rfl⟩ := arguments_ok hargs
  obtain ⟨a, ha⟩ : ∃ a, a = 2 * (splitCounts arg).2 := ⟨_, rfl⟩
  obtain ⟨b, hb⟩ : ∃ b, b = (splitCounts arg).1 := ⟨_, rfl⟩
  have hcount : argumentCount arg = a + b := by rw [argumentCount, ha, hb]
  rw [← ha] at hkeywords
  rw [← ha, ← hb] at hbind
  -- the keywords, the positional arguments and the callable are popped in turn
  have hpairs := popN_run hf a
  rw [if_pos (by omega)] at hpairs
  have hf₁ := Machine.frames_withTop hf { f with stack := f.stack.drop a }
  have hnamed : ofExcept (Keyword.ofPairs (f.stack.take a).reverse)
      (m.withTop { f with stack := f.stack.drop a }) =
        .ok keywords (m.withTop { f with stack := f.stack.drop a }) := by
    rw [hkeywords]
    rfl
  have hpositional := popN_run hf₁ b
  rw [if_pos (by rw [List.length_drop]; omega), Machine.withTop_withTop hf] at hpositional
  dsimp only at hpositional
  rw [List.drop_drop] at hpositional
  have hf₂ := Machine.frames_withTop hf { f with stack := f.stack.drop (a + b) }
  have hcallable : pop (m.withTop { f with stack := f.stack.drop (a + b) }) =
      .ok (.function r) (m.withTop { f with stack := f.stack.drop (a + b + 1) }) := by
    have hstack : f.stack.drop (a + b) = .function r :: f.stack.drop (a + b + 1) := by
      rw [← hcount, List.drop_eq_getElem_cons hlength, hget]
    rw [pop_of_stack hf₂ hstack, Machine.withTop_withTop hf]
  have hf₃ := Machine.frames_withTop hf { f with stack := f.stack.drop (a + b + 1) }
  obtain ⟨callee, g, hcode, hip, hrun⟩ := enterFunction_run hf₃ hbind
  refine ⟨callee, g, hcode, hip, ?_⟩
  rw [hcount, ← hrun]
  show (popN (2 * (splitCounts arg).2) >>= _) m = _
  rw [← ha, bind_of_ok hpairs]
  show (ofExcept (Keyword.ofPairs (f.stack.take a).reverse) >>= _) _ = _
  rw [bind_of_ok hnamed]
  show (popN (splitCounts arg).1 >>= _) _ = _
  rw [← hb, bind_of_ok hpositional]
  show (pop >>= _) _ = _
  rw [bind_of_ok hcallable]
  rfl

end Exec

namespace Moment

variable {x : Moment} {i : Instruction} {r : Ref .function} {f : Frame} {below : List Frame}

/-- A function is to be called, and its arguments bind to its parameters. -/
structure CallsBound (x : Moment) (i : Instruction) (r : Ref .function) : Prop where
  executes : x.Executes .callFunction i
  callable : x.operands[Exec.argumentCount i.arg]? = some (.function r)
  binds : ∃ bound, x.Binds i r bound

/-- The call `i` of the frame `f` is refused: a new exception is raised in `f`, at the call, and
there are the same frames as before it. -/
inductive Refused (f : Frame) (below : List Frame) (i : Instruction) (r : Raised) :
    Moment → Prop where
  | intro {l : Loop} (inside : l.InFrame (f.afterCall i) below)
      (registers : l.machine.registers = { raised := some r })
      (cls : r.exc.cls = .recursionError)
      (traceback : r.traceback = [⟨f.code.code.name, i.offset⟩]) :
      Refused f below i r (.offering l .raising)

/-- The call `i` of the frame `f` has put a frame of `code` on top of the others. -/
inductive Entered (f : Frame) (below : List Frame) (i : Instruction) (code : CodeObject) :
    Moment → Prop where
  | intro {l : Loop} {callee : Frame} (inside : l.InFrame callee (f.afterCall i :: below))
      (code_eq : callee.code = code) (ip : callee.ip = 0) : Entered f below i code (.stepping l)

/-- A call of a function whose arguments bind comes to the entering of its frame. -/
lemma CallsBound.run (h : x.CallsBound i r) (hx : x.Current) (hf : x.frames = f :: below) :
    ∃ l callee m', x = .stepping l ∧ l.InFrame f below ∧ f.code.code.decode f.ip = .ok i ∧
      callee.code = (x.machine.heap.function r).code ∧ callee.ip = 0 ∧
      m'.frames = f.afterCall i :: below ∧ m'.registers = x.registers ∧
      m'.limits = x.machine.limits ∧
      Exec.callFunction i.arg (l.fetched i) = Exec.enter callee m' := by
  obtain ⟨l, f', below', rfl, hf', hin, hd⟩ := h.executes.inFrame hx
  obtain ⟨rfl, rfl⟩ : f = f' ∧ below = below' := List.cons.inj (hf.symm.trans hf')
  obtain ⟨bound, args, g, hargs, hbind⟩ := h.binds
  have hcallable := h.callable
  rw [operands_of_frames hf] at hargs hcallable
  have hfetched := hin.frames_fetched i
  obtain ⟨callee, g', hcode, hip, hrun⟩ :=
    Exec.callFunction_run hfetched hcallable hargs hbind
  exact ⟨l, callee, { (l.fetched i).withTop (f.afterCall i) with heap := g' }, rfl, hin, hd, hcode,
    hip, Machine.frames_withTop hfetched _, rfl, rfl, hrun⟩

/-- **A call is refused** where there are as many frames as the limit allows. -/
lemma CallsBound.refused (h : x.CallsBound i r) (hreach : Reachable x) (hf : x.frames = f :: below)
    {n : Nat} (hlimit : x.machine.limits.depth = some n) (hfull : n ≤ below.length + 1) :
    ∃ l m', x = .stepping l ∧ f.code.code.decode f.ip = .ok i ∧
      Exec.execute l.code i (l.fetched i) = .error (.cause .recursionLimit) m' ∧
      x.next.Refused f below i
        (Fault.raisedAt (.cause .recursionLimit) ⟨f.code.code.name, i.offset⟩ m'.heap).1 := by
  obtain ⟨l, callee, m', rfl, hin, hd, -, -, hframes, hregs, hlimits, hrun⟩ :=
    h.run hreach.current hf
  have hdepth : m'.limits.checkDepth m'.calls.depth = .error (.depth n) := by
    rw [m'.depth_eq_length, hframes, List.length_cons, hlimits]
    exact Exec.checkDepth_error_iff.mpr ⟨n, hlimit, hfull, rfl⟩
  rw [Exec.enter_of_full callee hdepth] at hrun
  have hexecute : Exec.execute l.code i (l.fetched i) = .error (.cause .recursionLimit) m' :=
    Exec.execute_of_perform_error h.executes.opcode rfl hrun
  have hempty : m'.registers = {} := hregs.trans hreach.fit
  refine ⟨l, m', rfl, hd, hexecute, ?_⟩
  rw [next_stepping_decoded hin.frames (hin.code ▸ hd), Machine.dispatch, hexecute]
  refine .intro ⟨hframes, hin.code, hin.depth⟩ ?_ rfl rfl
  rw [Machine.registers_capture, hempty, hin.code]

/-- **A call enters a frame** where there is room for it. -/
lemma CallsBound.entered (h : x.CallsBound i r) (hx : x.Current) (hf : x.frames = f :: below)
    (hroom : ∀ n, x.machine.limits.depth = some n → below.length + 1 < n) :
    x.next.Entered f below i (x.machine.heap.function r).code := by
  obtain ⟨l, callee, m', rfl, hin, hd, hcode, hip, hframes, -, hlimits, hrun⟩ := h.run hx hf
  have hdepth : m'.limits.checkDepth m'.calls.depth = .ok () := by
    rw [m'.depth_eq_length, hframes, List.length_cons, hlimits]
    exact Exec.checkDepth_ok_iff.mpr hroom
  rw [Exec.enter_of_room callee hdepth] at hrun
  have hentered : (m'.calls.push callee).frames = callee :: f.afterCall i :: below :=
    congrArg (callee :: ·) hframes
  obtain ⟨l', hnext, hmachine⟩ := next_of_perform hin hd h.executes.opcode rfl hrun hentered
  have hcurrent := hx.transition.current hx
  rw [hnext] at hcurrent ⊢
  obtain ⟨g, rest, hin'⟩ := hcurrent
  have hframes' := hin'.frames
  rw [hmachine] at hframes'
  obtain ⟨rfl, rfl⟩ := List.cons.inj (hentered.symm.trans hframes')
  exact .intro hin' hcode hip

/-- A call without arguments, of a function that binds none. -/
lemma callsBound_of_run {x : Moment} {r : Ref .function}
    (hcall : x.instruction?.map (fun i => (i.opcode, i.arg)) = some (some .callFunction, 0))
    (hcallable : x.operands.head?.map (Value.same · (.function r)) = some true)
    (hbind : let fn := x.machine.heap.function r
      ((fn.code.code.signature.bind fn.code.code.name fn.defaults fn.kwdefaults
        { positional := [] }).run' x.machine.heap).isSome) :
    ∃ i, x.CallsBound i r := by
  obtain ⟨i, hi, hcall⟩ := Option.map_eq_some_iff.mp hcall
  obtain ⟨hop, harg⟩ := Prod.mk.inj hcall
  obtain ⟨v, hv, hsame⟩ := Option.map_eq_some_iff.mp hcallable
  obtain rfl := Value.eq_function_of_same hsame
  refine ⟨i, ⟨hi, hop⟩, ?_, ?_⟩
  · rw [harg]
    exact List.head?_eq_getElem? ▸ hv
  · obtain ⟨bound, hbound⟩ := Option.isSome_iff_exists.mp hbind
    dsimp only [EStateM.run'] at hbound
    split at hbound
    next heq =>
      refine ⟨_, { positional := [] }, _, ?_, heq⟩
      rw [harg]
      rfl
    next => cases hbound

end Moment

/-! ### Faults -/

/-- Only the depth of calls has its class. -/
lemma Cause.cls_ne_of_flat {c : Cause} (h : c.Flat) : c.cls ≠ .recursionError := by
  cases c with
  | recursionLimit => exact h.elim
  | _ => exact fun hcls => by cases hcls

lemma Fault.Flat.cls_ne {e : Fault} (he : e.Flat) (p : Place) (h : Heap) :
    (e.raisedAt p h).1.exc.cls ≠ .recursionError := by
  cases e with
  | cause c => exact Cause.cls_ne_of_flat he
  | internal k => exact fun hcls => by cases hcls
  | thrown exc => exact he.elim
  | propagated r => exact he.elim

namespace Moment

variable {x : Moment} {exc : ExcObject}

/-- The program raises the exception: it is the instance of a raise that is to be executed. -/
def ProgramRaises (x : Moment) (exc : ExcObject) : Prop :=
  ∃ i, x.Executes .raiseVarargs i ∧ x.fault? = some (.thrown exc)

/-- **Where frames are not limited** an exception for the depth of calls can come from the program
alone. -/
lemma Reachable.programRaises (h : Reachable x) (hlimit : x.machine.limits.depth = none)
    (hraises : x.Raises exc) (hcls : exc.cls = .recursionError) : x.ProgramRaises exc := by
  obtain ⟨e, p, g, he, rfl⟩ := hraises
  have hfault := he
  suffices hflat : e.Flat ∨ ∃ exc i, e = .thrown exc ∧ x.Executes .raiseVarargs i by
    rcases hflat with hflat | ⟨exc, i, rfl, hexecutes⟩
    · exact absurd hcls (hflat.cls_ne p g)
    · exact ⟨i, hexecutes, hfault⟩
  cases x with
  | stepping l =>
      obtain ⟨f, below, hin⟩ := h.current
      rw [fault?, hin.frames] at he
      dsimp only at he
      cases hd : l.code.code.decode f.ip with
      | error d =>
          rw [hd] at he
          cases he
          exact .inl trivial
      | ok i =>
          rw [hd] at he
          dsimp only at he
          cases hrun : Exec.execute l.code i (l.fetched i) with
          | ok s m' =>
              rw [hrun] at he
              cases he
          | error e' m' =>
              rw [hrun] at he
              cases he
              rcases Exec.execute_flat (hin.frames_fetched i) hrun with
                hflat | ⟨hop, exc, rfl⟩ | ⟨-, n, hn, -⟩
              · exact .inl hflat
              · exact .inr ⟨exc, i, rfl, instruction?_of_inFrame hin (hin.code ▸ hd), hop⟩
              · cases hlimit.symm.trans hn
  | offering l s => cases he
  | leaving m s =>
      cases s with
      | breaking | continuing =>
          cases he
          exact .inl trivial
      | returning | raising => cases he
  | ended m result => cases he

/-- What a run that is allowed no frame comes to. -/
lemma runCode_of_none {m : Machine} (code : CodeObject) (globals locals : Option (Ref .namespace))
    (hlimit : m.limits.depth = some 0) (fuel : Nat) :
    ∃ m' r, m.runCode fuel code globals locals = some (m', .error r) ∧
      r.exc.cls = .recursionError ∧ r.traceback = [⟨code.code.name, 0⟩] ∧
      m'.frames = [] ∧ m'.output = m.output ∧ m'.log = m.log := by
  obtain ⟨h, hstart⟩ := start_of_none code globals locals hlimit
  rw [Machine.runCode, hstart]
  cases fuel <;> exact ⟨_, _, rfl, rfl, rfl, rfl, rfl, rfl⟩

end Moment

/-- **The recursion limit bounds the frames.** Let a run have the limit `n`. At each of its moments
there are at most `n` frames. If a function is to be called there, and its arguments bind, the call
raises the exception for the depth of calls just if there are `n` frames. It is raised in the
caller at the offset of the call, with the same frames as before. The caller catches it if it is
guarded, else the innermost guarded frame below does, where there are fewer than `n` frames. A call
that finds fewer than `n` frames enters one more.

Without a limit a run always starts, and an exception of that class, whether it is there at a moment
or the run fails with it, has been raised by the program. If no frame is allowed, a run ends with
the exception, raised at the start of the code, and executes no instruction. -/
theorem recursion_limit_bounds_frames (m : Machine) (code : CodeObject)
    (globals locals : Option (Ref .namespace)) :
    (∀ n k x, m.limits.depth = some n →
      x = Moment.next^[k] (.ofTurn (m.start code globals locals)) →
      x.frames.length ≤ n ∧
      ∀ i r f below, x.CallsBound i r → x.frames = f :: below →
        ((∃ l raised, x.next = .offering l .raising ∧ l.machine.registers.raised = some raised ∧
          raised.exc.cls = .recursionError) ↔ x.frames.length = n) ∧
        (x.frames.length = n → ∃ raised, x.next.Refused f below i raised ∧
          (f.Guarded → x.next.CaughtBy raised.exc raised.traceback f below) ∧
          (¬ f.Guarded → x.next.Leaves raised below) ∧
          ∀ passed g rest, below = passed ++ g :: rest → (g :: rest).length < n) ∧
        (x.frames.length < n → x.next.Entered f below i (x.machine.heap.function r).code)) ∧
    (m.limits.depth = none →
      (∃ l, m.start code globals locals = .running l) ∧
      (∀ k exc, (Moment.next^[k] (.ofTurn (m.start code globals locals))).Keeps exc →
        exc.cls = .recursionError →
        ∃ j < k, (Moment.next^[j] (.ofTurn (m.start code globals locals))).ProgramRaises exc) ∧
      ∀ fuel m' r, m.runCode fuel code globals locals = some (m', .error r) →
        r.exc.cls = .recursionError →
        ∃ j, (Moment.next^[j] (.ofTurn (m.start code globals locals))).ProgramRaises r.exc) ∧
    (m.limits.depth = some 0 →
      (∀ k l, Moment.next^[k] (.ofTurn (m.start code globals locals)) ≠ .stepping l) ∧
      ∀ fuel, ∃ m' r, m.runCode fuel code globals locals = some (m', .error r) ∧
        r.exc.cls = .recursionError ∧ r.traceback = [⟨code.code.name, 0⟩] ∧
        m'.frames = [] ∧ m'.output = m.output ∧ m'.log = m.log) := by
  refine ⟨?_, ?_, ?_⟩
  · rintro n k x hlimit rfl
    have hreach := Moment.reachable_iterate (.start m code globals locals) k
    have hle := Moment.iterate_length_le code globals locals hlimit k
    have hlimits := Moment.iterate_limits m code globals locals k
    refine ⟨hle, ?_⟩
    generalize Moment.next^[k] (.ofTurn (m.start code globals locals)) = x at *
    rw [← hlimits] at hlimit
    intro i r f below hcalls hf
    have hlength : x.frames.length = below.length + 1 := congrArg List.length hf
    have hrefused : x.frames.length = n → ∃ l m', x = .stepping l ∧
        f.code.code.decode f.ip = .ok i ∧
        Exec.execute l.code i (l.fetched i) = .error (.cause .recursionLimit) m' ∧
        x.next.Refused f below i (Fault.raisedAt (.cause .recursionLimit)
          ⟨f.code.code.name, i.offset⟩ m'.heap).1 := fun hfull =>
      hcalls.refused hreach hf hlimit (by omega)
    have hentered : x.frames.length < n →
        x.next.Entered f below i (x.machine.heap.function r).code := fun hroom =>
      hcalls.entered hreach.current hf fun n' hn' => by
        cases hlimit.symm.trans hn'
        omega
    refine ⟨⟨?_, ?_⟩, ?_, hentered⟩
    · rintro ⟨l, raised, hnext, -⟩
      refine Nat.le_antisymm hle (Nat.not_lt.mp fun hroom => ?_)
      have hmoment := hentered hroom
      rw [hnext] at hmoment
      cases hmoment
    · intro hfull
      obtain ⟨l, m', -, -, -, hmoment⟩ := hrefused hfull
      generalize hnext : x.next = y at hmoment
      cases hmoment with
      | intro inside registers cls traceback =>
          exact ⟨_, _, rfl, congrArg Registers.raised registers, cls⟩
    · intro hfull
      obtain ⟨l, m', rfl, hd, hrun, hmoment⟩ := hrefused hfull
      obtain ⟨hcaught, hleaves⟩ := Moment.fault_propagates hreach hf hd hrun rfl
      refine ⟨_, hmoment, hcaught, hleaves, ?_⟩
      rintro passed g rest rfl
      rw [List.length_append] at hlength
      omega
  · intro hlimit
    have hroom : m.limits.depth ≠ some 0 := by
      rw [hlimit]
      exact fun h => by cases h
    obtain ⟨l, -, hstart, -⟩ := Moment.start_of_room code globals locals hroom
    have hprogram : ∀ j exc, exc.cls = .recursionError →
        (Moment.next^[j] (.ofTurn (m.start code globals locals))).Raises exc →
        (Moment.next^[j] (.ofTurn (m.start code globals locals))).ProgramRaises exc := by
      intro j exc hcls hraises
      have hreach := Moment.reachable_iterate (.start m code globals locals) j
      rw [← Moment.iterate_limits m code globals locals j] at hlimit
      exact hreach.programRaises hlimit hraises hcls
    refine ⟨⟨l, hstart⟩, ?_, ?_⟩
    · intro k exc hkeeps hcls
      obtain ⟨j, hj, hraises⟩ := Moment.exists_raises m code globals locals hkeeps
      exact ⟨j, hj, hprogram j exc hcls hraises⟩
    · intro fuel m' r hrun hcls
      obtain ⟨j, hraises⟩ := Moment.exists_raises_of_runCode hstart hrun
      exact ⟨j, hprogram j r.exc hcls hraises⟩
  · intro hlimit
    refine ⟨fun k l => ?_, Moment.runCode_of_none code globals locals hlimit⟩
    obtain ⟨h, hstart⟩ := Moment.start_of_none code globals locals hlimit
    rw [hstart, Moment.ofTurn, Moment.iterate_ended]
    exact fun h => by cases h

/-- Two frames are allowed. A program calls, under an except block, a function that calls another:
that call is refused, and the program catches the exception. Its handler calls again, with one frame
less, and enters a frame. -/
theorem call_after_refused_call :
    let code : CodeObject :=
      ⟨default, { Code.empty "f" with
        bytecode := #[121, 10, 0, 100, 0, 0, 132, 0, 0, 131, 0, 0, 83,
          100, 0, 0, 132, 0, 0, 131, 0, 0, 83]
        consts := #[.code { Code.empty "g" with
          bytecode := #[100, 0, 0, 132, 0, 0, 131, 0, 0, 83]
          consts := #[.code (Code.empty "h")] }] }⟩
    let m : Machine := { builtins := ⟨0⟩, limits := ⟨some 2⟩ }
    let run (k : Nat) := Moment.next^[k] (.ofTurn (m.start code none none))
    ∃ i r f g raised i' r' f', (run 6).CallsBound i r ∧ (run 6).frames = [g, f] ∧ ¬ g.Guarded ∧
      f.Guarded ∧ (run 7).Refused g [f] i raised ∧
      (run 7).CaughtBy raised.exc [⟨"g", i.offset⟩, ⟨"f", 9⟩] f [] ∧
      (run 12).CallsBound i' r' ∧ (run 12).frames = [f'] ∧
      (run 13).Entered f' [] i' ((run 12).machine.heap.function r').code := by
  intro code m run
  have hrefused : (run 6).instruction?.map (fun i => (i.opcode, i.arg)) =
        some (some .callFunction, 0) ∧
      (run 6).frames.map (fun f => (f.place, f.ip, decide f.Guarded)) =
        [(⟨"g", 3⟩, 6, false), (⟨"f", 9⟩, 12, true)] ∧
      (run 6).operands.head?.map (Value.same · (.function ⟨1⟩)) = some true := by
    decide +kernel +revert
  have hentered : (run 12).instruction?.map (fun i => (i.opcode, i.arg)) =
        some (some .callFunction, 0) ∧ (run 12).frames.length = 1 ∧
      (run 12).operands.head?.map (Value.same · (.function ⟨2⟩)) = some true := by
    decide +kernel +revert
  have hbinds : (∃ i, (run 6).CallsBound i ⟨1⟩) ∧ ∃ i, (run 12).CallsBound i ⟨2⟩ :=
    ⟨Moment.callsBound_of_run hrefused.1 hrefused.2.2 (by decide +kernel +revert),
      Moment.callsBound_of_run hentered.1 hentered.2.2 (by decide +kernel +revert)⟩
  obtain ⟨⟨i, hcall⟩, i', hcall'⟩ := hbinds
  obtain ⟨g, below, hframes, hg, hbelow⟩ := List.map_eq_cons_iff.mp hrefused.2.1
  obtain ⟨f, rest, rfl, hf, hrest⟩ := List.map_eq_cons_iff.mp hbelow
  obtain rfl := List.map_eq_nil_iff.mp hrest
  obtain ⟨f', hframes'⟩ := List.length_eq_one_iff.mp hentered.2.1
  have hstep (k : Nat) : run (k + 1) = (run k).next := Function.iterate_succ_apply' _ _ _
  -- the call of the function finds two frames
  obtain ⟨hbound, -⟩ := recursion_limit_bounds_frames m code none none
  obtain ⟨-, hfull, -⟩ := (hbound 2 6 _ rfl rfl).2 i ⟨1⟩ g [f] hcall hframes
  obtain ⟨raised, hmoment, -, hleaves, -⟩ := hfull (congrArg List.length hframes)
  obtain ⟨-, -, hroom⟩ := (hbound 2 12 _ rfl rfl).2 i' ⟨2⟩ f' [] hcall' hframes'
  have hunguarded : ¬ g.Guarded := by
    simpa using (Prod.mk.inj (Prod.mk.inj hg).2).2
  have hguarded : f.Guarded := by
    simpa using (Prod.mk.inj (Prod.mk.inj hf).2).2
  rw [← hstep 6] at hmoment hleaves
  have hcaught := (hleaves hunguarded).caught [] f [] rfl (List.forall_mem_nil _) hguarded
  have htraceback : raised.traceback = [⟨g.code.code.name, i.offset⟩] := by
    generalize run 7 = y at hmoment
    cases hmoment with
    | intro _ _ _ traceback => exact traceback
  have hname : g.code.code.name = "g" := congrArg Place.code (Prod.mk.inj hg).1
  rw [htraceback, hname, List.nil_append, List.map_singleton, (Prod.mk.inj hf).1] at hcaught
  refine ⟨i, ⟨1⟩, f, g, raised, i', ⟨2⟩, f', hcall, hframes, hunguarded, hguarded, hmoment, hcaught,
    hcall', hframes', ?_⟩
  rw [hstep 12]
  exact hroom (lt_of_eq_of_lt (congrArg List.length hframes') Nat.one_lt_two)

end StackVM
