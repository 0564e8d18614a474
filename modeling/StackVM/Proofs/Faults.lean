/-
What instructions fail with. The decoder gives each instruction the operand that it asks for,
a frame has a cell for each index that the decoder lets through, and there is a current frame
as long as the run goes on. So a fault of the machine itself is an operand stack that has run
out, and nothing else.

* `Fault.OfInstruction`: the faults that instructions have;
* `Machine.Running`: the machine is in a frame of a code object, with all its cells;
* `Exec.Sound`: what fails there has such a fault;
* `Exec.execute_sound`: every decoded instruction is sound;
* `underflow_is_only_internal_fault`: what that says of runs.
-/
import StackVM.Proofs.Bounds

namespace StackVM

/-- The faults of instructions: causes, instances that are raised, and an operand stack that
has run out. -/
def Fault.OfInstruction : Fault → Prop
  | .cause _ => True
  | .thrown _ => True
  | .propagated _ => False
  | .internal k => k = .stackUnderflow

/-- Every cell of a code object has a name. -/
lemma Code.exists_cellName? {c : Code} {index : Nat} (hindex : index < c.cellCount) :
    ∃ name, c.cellName? index = some name := by
  rw [cellName?]
  rw [cellCount] at hindex
  split
  next hlt => exact ⟨_, Array.getElem?_eq_getElem hlt⟩
  next hge =>
    have hlt : index - c.cellvars.size < c.freevars.size := by omega
    exact ⟨_, Array.getElem?_eq_getElem hlt⟩

/-- The current frame runs the code `c` and has all the cells for it. -/
def Machine.Running (c : Code) (m : Machine) : Prop :=
  ∃ f below, m.frames = f :: below ∧ f.code.code = c ∧ f.cells.length = c.cellCount

lemma Machine.Running.popped {c : Code} {m m' : Machine} (h : m.Running c) (hp : Popped m m') :
    m'.Running c := by
  obtain ⟨f, below, hf, hcode, hcells⟩ := h
  obtain ⟨⟨n, hn⟩, -⟩ := hp f below hf
  exact ⟨_, below, hn, hcode, hcells⟩

lemma Machine.Running.moved {c : Code} {target : Option Nat} {m m' : Machine} (h : m.Running c)
    (hm : Moved target m m') : m'.Running c := by
  obtain ⟨f, below, hf, hcode, hcells⟩ := h
  obtain ⟨⟨stack, ip, -, hframes⟩, -⟩ := hm f below hf
  exact ⟨_, below, hframes, hcode, hcells⟩

namespace Exec

open Machine

variable {α β : Type} {c : Code}

/-- In a frame of the code `c` every failure of `x` is the fault of an instruction. -/
def Sound (c : Code) (x : Exec α) : Prop :=
  ∀ m e m', m.Running c → x m = .error e m' → e.OfInstruction

/-! ### Rules -/

/-- After operands have been popped anything sound may follow. -/
lemma Sound.bind {x : Exec α} {g : α → Exec β} (hx : Sound c x) (hpopped : Outcomes Popped x)
    (hg : ∀ a, Sound c (g a)) : Sound c (x >>= g) := by
  intro m e m'' hm h
  rcases bind_error_iff.mp h with h₁ | ⟨a, m', h₁, h₂⟩
  · exact hx m e m'' hm h₁
  · exact hg a m' e m'' (hm.popped (hpopped.results m a m' h₁)) h₂

/-- So it may after the current frame has been moved. -/
lemma Sound.bind_acts {target : Option Nat} {x : Exec α} {g : α → Exec β} (hx : Sound c x)
    (hacts : Acts target x) (hg : ∀ a, Sound c (g a)) : Sound c (x >>= g) := by
  intro m e m'' hm h
  rcases bind_error_iff.mp h with h₁ | ⟨a, m', h₁, h₂⟩
  · exact hx m e m'' hm h₁
  · exact hg a m' e m'' (hm.moved (hacts.results m a m' h₁)) h₂

/-- What never fails is sound. -/
lemma sound_of_never {x : Exec α} (hx : ∀ m e m', x m ≠ .error e m') : Sound c x :=
  fun m e m' _ h => absurd h (hx m e m')

lemma pure_sound (a : α) : Sound c (pure a : Exec α) := by
  refine sound_of_never fun m e m' h => ?_
  cases h

/-- A change of the value adds no failure. -/
lemma Sound.map {x : Exec α} (hx : Sound c x) (g : α → β) : Sound c (g <$> x) := by
  rw [map_eq_pure_bind]
  intro m e m'' hm h
  rcases bind_error_iff.mp h with h₁ | ⟨a, m', -, h₂⟩
  · exact hx m e m'' hm h₁
  · cases h₂

lemma throw_sound {e : Fault} (he : e.OfInstruction) : Sound c (throw e : Exec α) := by
  intro m e' m' _ h
  cases h
  exact he

lemma fail_sound (cause : Cause) : Sound c (fail cause : Exec α) :=
  throw_sound trivial

lemma ofExcept_sound (x : Except Cause α) : Sound c (ofExcept x) := by
  cases x with
  | ok a => exact pure_sound a
  | error cause => exact fail_sound cause

/-- An operation on values fails with a cause. -/
lemma lift_sound (x : Eval α) : Sound c (liftM x : Exec α) := by
  intro m e m' _ h
  obtain ⟨cause, -, -, rfl, -⟩ := lift_error_iff.mp h
  trivial

/-- An operation on values, and what comes after it. -/
lemma lift_bind_sound {x : Eval α} {g : α → Exec β} (hg : ∀ a, Sound c (g a)) :
    Sound c (liftM x >>= g : Exec β) := by
  intro m e m'' hm h
  rcases bind_error_iff.mp h with h₁ | ⟨a, m', h₁, h₂⟩
  · exact lift_sound x m e m'' hm h₁
  · obtain ⟨hp, -, hm'⟩ := lift_ok_iff.mp h₁
    have hrunning : m'.Running c := hm' ▸ hm
    exact hg a m' e m'' hrunning h₂

/-- What fails only without a current frame does not fail. -/
lemma Sure.sound {target : Option Nat} {x : Exec α} (hx : Sure target x) : Sound c x := by
  intro m e m' hm h
  obtain ⟨f, below, hf, -⟩ := hm
  rw [hx.failures m e m' h] at hf
  cases hf

/-! ### The current frame -/

/-- There is a current frame, which runs the code and has its cells. -/
lemma frame_bind_sound {g : Frame → Exec β}
    (hg : ∀ f, f.code.code = c → f.cells.length = c.cellCount → Sound c (g f)) :
    Sound c (frame >>= g) := by
  intro m e m' hm h
  obtain ⟨f, below, hf, hcode, hcells⟩ := hm
  rw [bind_of_ok (frame_run hf)] at h
  exact hg f hcode hcells m e m' ⟨f, below, hf, hcode, hcells⟩ h

lemma heap_bind_sound {g : Heap → Exec β} (hg : ∀ h, Sound c (g h)) : Sound c (heap >>= g) :=
  fun m e m' hm h => hg m.heap m e m' hm h

lemma peek_sound : Sound c peek := by
  refine frame_bind_sound fun f _ _ => ?_
  split
  · exact pure_sound _
  · exact throw_sound rfl

lemma pop_sound : Sound c pop := by
  intro m e m' hm h
  obtain ⟨f, below, hf, -⟩ := hm
  rw [pop_run hf] at h
  split at h
  · cases h
  · cases h
    rfl

lemma popN_sound (n : Nat) : Sound c (popN n) := by
  intro m e m' hm h
  obtain ⟨f, below, hf, -⟩ := hm
  rw [popN_run hf] at h
  split at h
  · cases h
  · cases h
    rfl

/-- A value is popped, and what comes after it is sound. -/
lemma pop_bind_sound {g : Value → Exec β} (hg : ∀ v, Sound c (g v)) : Sound c (pop >>= g) :=
  pop_sound.bind pop_popped hg

lemma popN_bind_sound {n : Nat} {g : List Value → Exec β} (hg : ∀ vs, Sound c (g vs)) :
    Sound c (popN n >>= g) :=
  (popN_sound n).bind (popN_popped n) hg

lemma push_sound (v : Value) : Sound c (push v) :=
  (push_sure v : Sure none _).sound

lemma jump_sound (t : Nat) : Sound c (jump t) :=
  (jump_sure t).sound

lemma rotate_sound (n : Nat) : Sound c (rotate n) := by
  refine frame_bind_sound fun f _ _ => ?_
  split
  · intro m e m' hm h
    obtain ⟨f, below, hf, -⟩ := hm
    rw [modifyFrame_run hf] at h
    cases h
  · exact throw_sound rfl

/-- An operand that the instruction has is found. -/
lemma operand_bind_sound {i : Instruction} {found : Option α} {g : α → Exec β} {a : α}
    (hfound : found = some a) (hg : Sound c (g a)) : Sound c (operand i found >>= g) := by
  rw [hfound]
  exact hg

/-! ### Variables and cells -/

lemma loadVariable_sound (scope : Scope) (name : String) : Sound c (loadVariable scope name) := by
  refine frame_bind_sound fun f _ _ => heap_bind_sound fun h => ?_
  split
  · exact push_sound _
  · exact fail_sound _

lemma storeVariable_sound (scope : Scope) (name : String) :
    Sound c (storeVariable scope name) :=
  pop_bind_sound fun _ => frame_bind_sound fun _ _ _ => lift_sound _

lemma deleteVariable_sound (scope : Scope) (name : String) :
    Sound c (deleteVariable scope name) := by
  refine frame_bind_sound fun f _ _ => heap_bind_sound fun h => ?_
  split
  · exact lift_sound _
  · exact fail_sound _

/-- There is a cell at every index that the decoder lets through. -/
lemma cellAt_sound {index : Nat} (hindex : index < c.cellCount) : Sound c (cellAt index) := by
  refine frame_bind_sound fun f _ hcells => ?_
  have hlt : index < f.cells.length := hcells ▸ hindex
  rw [List.getElem?_eq_getElem hlt]
  exact pure_sound _

lemma loadCell_sound {index : Nat} (hindex : index < c.cellCount) : Sound c (loadCell index) := by
  refine heap_bind_sound fun h => (cellAt_sound hindex).bind (cellAt_popped index) fun r => ?_
  split
  · exact push_sound _
  · refine frame_bind_sound fun f hcode _ => ?_
    obtain ⟨name, hname⟩ := Code.exists_cellName? hindex
    rw [hcode, hname]
    exact fail_sound _

lemma storeCell_sound {index : Nat} (hindex : index < c.cellCount) :
    Sound c (storeCell index) :=
  pop_bind_sound fun _ => (cellAt_sound hindex).bind (cellAt_popped index) fun _ => lift_sound _

/-! ### Collections -/

lemma storeMap_sound : Sound c storeMap := by
  refine pop_bind_sound fun key => pop_bind_sound fun value => ?_
  refine peek_sound.bind peek_popped fun v => ?_
  cases v with
  | dict r => exact lift_sound _
  | _ => exact fail_sound _

lemma unpacked_sound (v : Value) : Sound c (unpacked v) := by
  cases v with
  | tuple ident items => exact pure_sound items
  | list r => exact heap_bind_sound fun h => pure_sound _
  | _ => exact lift_bind_sound fun items => pure_sound _

lemma unpackSequence_sound (count : Nat) : Sound c (unpackSequence count) := by
  refine pop_bind_sound fun v => (unpacked_sound v).bind (unpacked_popped v) fun items => ?_
  split
  · exact fail_sound _
  · split
    · exact fail_sound _
    · have hsure : Sure none (modifyFrame fun f => { f with stack := items ++ f.stack }) :=
        modifyFrame_sure fun f => ⟨items ++ f.stack, f.ip, .inl rfl, rfl⟩
      exact hsure.sound

lemma getIter_sound : Sound c getIter := by
  refine pop_bind_sound fun v => ?_
  cases v with
  | iter r => exact push_sound _
  | _ => exact lift_bind_sound fun it => lift_bind_sound fun w => push_sound w

lemma forIter_sound (exit : Nat) : Sound c (forIter exit) := by
  refine peek_sound.bind peek_popped fun v => ?_
  cases v with
  | iter r =>
      refine heap_bind_sound fun h => lift_bind_sound fun step => ?_
      cases step with
      | some step => exact lift_bind_sound fun _ => push_sound step.1
      | none => exact (pop_sound.map _).bind (pop_popped.map _) fun _ => jump_sound exit
  | _ => exact fail_sound _

/-! ### Functions -/

lemma popClosure_sound (code : Code) : Sound c (popClosure code) := by
  refine pop_bind_sound fun v => ?_
  cases v with
  | tuple ident items =>
      refine (ofExcept_sound (cells items)).bind (ofExcept_popped _) fun closure => ?_
      split
      · exact pure_sound _
      · exact fail_sound _
  | _ => exact fail_sound _

lemma pushFunction_sound (code : CodeObject) (arg : Nat) (closure : List (Ref .cell)) :
    Sound c (pushFunction code arg closure) := by
  refine popN_bind_sound fun pairs => ?_
  refine (ofExcept_sound _).bind (ofExcept_popped _) fun kwdefaults => ?_
  refine popN_bind_sound fun defaults => frame_bind_sound fun f _ _ => ?_
  exact lift_bind_sound fun v => push_sound v

lemma makeFunction_sound (arg : Nat) (isClosure : Bool) : Sound c (makeFunction arg isClosure) := by
  refine pop_bind_sound fun v => ?_
  cases v with
  | code code =>
      cases isClosure with
      | true =>
          exact (popClosure_sound code.code).bind (popClosure_popped code.code)
            (pushFunction_sound code arg)
      | false => exact pushFunction_sound code arg []
  | _ => exact fail_sound _

lemma enterFunction_sound (f : Function) (args : Args) : Sound c (enterFunction f args) := by
  refine lift_bind_sound fun bound => lift_bind_sound fun locals => ?_
  refine frame_bind_sound fun caller _ _ => lift_bind_sound fun callee => ?_
  intro m e m' _ h
  obtain ⟨⟨cause, rfl⟩, -⟩ := enter_error h
  trivial

lemma callFunction_sound (arg : Nat) : Sound c (callFunction arg) := by
  refine popN_bind_sound fun pairs => ?_
  refine (ofExcept_sound _).bind (ofExcept_popped _) fun keywords => ?_
  refine popN_bind_sound fun positional => pop_bind_sound fun v => ?_
  cases v with
  | function r => exact heap_bind_sound fun h => enterFunction_sound _ _
  | builtin b =>
      refine lift_bind_sound fun result => ?_
      have hput : Sure none (put result.2) := put_sure _
      exact hput.sound.bind_acts hput.acts fun _ => push_sound _
  | excClass cls => exact lift_bind_sound fun v => push_sound v
  | _ => exact fail_sound _

/-! ### Blocks and signals -/

lemma popBlock_sound : Sound c popBlock := by
  intro m e m' hm h
  obtain ⟨f, below, hf, -⟩ := hm
  rw [popBlock_run hf] at h
  split at h
  · cases h
    trivial
  · cases h

lemma popCleanup_sound (op : String) : Sound c (popCleanup op) := by
  intro m e m' hm h
  obtain ⟨f, below, hf, -⟩ := hm
  rw [popCleanup_run hf] at h
  split at h
  · cases h
  · cases h
    trivial

lemma endFinally_sound : Sound c endFinally := by
  intro m e m'' hm h
  rcases bind_error_iff.mp h with h₁ | ⟨pending, m', -, h₂⟩
  · exact popCleanup_sound _ m e m'' hm h₁
  · cases pending <;> cases h₂

/-- What an exception class makes is an instance. -/
lemma callClass_ok {cls : ExcClass} {args : Args} {h h' : Heap} {v : Value}
    (hcall : cls.call args h = .ok v h') : ∃ e, v = .exception e := by
  obtain ⟨arg, h₁, -, hcall⟩ := bind_ok_iff.mp hcall
  cases arg with
  | none =>
      obtain ⟨e, h₂, -, hcall⟩ := bind_ok_iff.mp hcall
      cases hcall
      exact ⟨e, rfl⟩
  | some arg =>
      obtain ⟨hp, h₂, -, hcall⟩ := bind_ok_iff.mp hcall
      obtain ⟨e, h₃, -, hcall⟩ := bind_ok_iff.mp hcall
      cases hcall
      exact ⟨e, rfl⟩

lemma instantiate_sound (v : Value) (arg : Option Value) : Sound c (instantiate v arg) := by
  cases v with
  | exception e => exact pure_sound e
  | excClass cls =>
      intro m e m'' hm h
      rcases bind_error_iff.mp h with h₁ | ⟨w, m', h₁, h₂⟩
      · exact lift_sound _ m e m'' hm h₁
      · obtain ⟨hp, hcall, -⟩ := lift_ok_iff.mp h₁
        obtain ⟨o, rfl⟩ := callClass_ok hcall
        cases h₂
  | _ => exact fail_sound _

lemma raiseVarargs_sound (count : Nat) : Sound c (raiseVarargs count) := by
  match count with
  | 0 =>
      refine Sound.bind (sound_of_never fun m e m' h => by cases h) .get fun m => ?_
      split
      · refine sound_of_never fun m e m' h => ?_
        cases h
      · exact fail_sound _
  | 1 =>
      refine pop_bind_sound fun v => ?_
      exact (instantiate_sound v none).bind (instantiate_popped v none) fun e => throw_sound trivial
  | 2 =>
      refine pop_bind_sound fun arg => pop_bind_sound fun v => ?_
      exact (instantiate_sound v _).bind (instantiate_popped v _) fun e => throw_sound trivial
  | n + 3 => exact fail_sound _

/-! ### Instructions -/

variable {i : Instruction} {start : Nat}

/-- An instruction on a variable has its name. -/
lemma exists_variableName? {op : Opcode} {scope : Scope} (hi : i.Decoded c start)
    (hop : i.opcode = some op) (hkind : op = .load scope ∨ op = .store scope ∨ op = .delete scope) :
    ∃ name, i.operand.variableName? scope = some name := by
  have hfits := hi.fits hop
  obtain ⟨name, hname⟩ | ⟨name, hname⟩ : (∃ s, i.operand = .local s ∧ scope = .fast) ∨
      ∃ s, i.operand = .name s ∧ scope ≠ .fast := by
    rcases hkind with rfl | rfl | rfl
    all_goals
      cases scope with
      | fast => exact .inl (hfits.imp fun _ h => ⟨h, rfl⟩)
      | _ => exact .inr (hfits.imp fun _ h => ⟨h, nofun⟩)
  · obtain ⟨hname, rfl⟩ := hname
    rw [hname]
    exact ⟨name, rfl⟩
  · obtain ⟨hname, hscope⟩ := hname
    rw [hname]
    cases scope with
    | fast => exact absurd rfl hscope
    | _ => exact ⟨name, rfl⟩

/-- An instruction on a cell has an index in bounds. -/
lemma exists_cell? {op : Opcode} (hi : i.Decoded c start) (hop : i.opcode = some op)
    (hkind : op.operandKind = .free) :
    ∃ index, i.operand.cell? = some index ∧ index < c.cellCount := by
  have hfits := hi.fits hop
  rw [hkind] at hfits
  obtain ⟨index, hindex, hlt⟩ := hfits
  rw [hindex]
  exact ⟨index, rfl, hlt⟩

/-- A jump has a target. -/
lemma exists_target? {op : Opcode} (hi : i.Decoded c start) (hop : i.opcode = some op)
    (hkind : op.operandKind = .jumpRel ∨ op.operandKind = .jumpAbs) :
    ∃ target, i.operand.target? = some target := by
  have hfits := hi.fits hop
  obtain ⟨target, htarget, -⟩ : ∃ t, i.operand = .jump t ∧ t < c.bytecode.size := by
    rcases hkind with hkind | hkind
    all_goals
      rw [hkind] at hfits
      exact hfits
  rw [htarget]
  exact ⟨target, rfl⟩

lemma perform_sound {code : CodeObject} {op : Opcode} (hi : i.Decoded c start)
    (hop : i.opcode = some op) : Sound c (perform code i op) := by
  cases op with
  | nop => exact pure_sound _
  | popTop => exact pop_sound.map _
  | dupTop => exact peek_sound.bind peek_popped fun v => push_sound v
  | rotTwo => exact rotate_sound 2
  | rotThree => exact rotate_sound 3
  | rotFour => exact rotate_sound 4
  | unary op => exact pop_bind_sound fun v => lift_bind_sound fun w => push_sound w
  | binary op =>
      cases op with
      | matrixMultiply => exact fail_sound _
      | _ =>
          refine pop_bind_sound fun r => pop_bind_sound fun l => ?_
          exact lift_bind_sound fun w => push_sound w
  | inplace op =>
      refine pop_bind_sound fun r => pop_bind_sound fun l => ?_
      exact lift_bind_sound fun w => push_sound w
  | compare =>
      obtain ⟨op, hoperand⟩ : ∃ op, i.operand = .compare op := hi.fits hop
      refine operand_bind_sound (by rw [hoperand]; rfl) ?_
      refine pop_bind_sound fun r => pop_bind_sound fun l => ?_
      exact lift_bind_sound fun b => push_sound _
  | loadConst =>
      obtain ⟨k, hoperand⟩ : ∃ k, i.operand = .const k := hi.fits hop
      refine operand_bind_sound (by rw [hoperand]; rfl) ?_
      exact lift_bind_sound fun v => push_sound v
  | load scope =>
      obtain ⟨name, hname⟩ := exists_variableName? hi hop (.inl rfl)
      exact operand_bind_sound hname (loadVariable_sound scope name)
  | store scope =>
      obtain ⟨name, hname⟩ := exists_variableName? hi hop (.inr (.inl rfl))
      exact operand_bind_sound hname (storeVariable_sound scope name)
  | delete scope =>
      obtain ⟨name, hname⟩ := exists_variableName? hi hop (.inr (.inr rfl))
      exact operand_bind_sound hname (deleteVariable_sound scope name)
  | loadClosure =>
      obtain ⟨index, hindex, hlt⟩ := exists_cell? hi hop rfl
      refine operand_bind_sound hindex ?_
      exact (cellAt_sound hlt).bind (cellAt_popped index) fun r => push_sound _
  | loadDeref =>
      obtain ⟨index, hindex, hlt⟩ := exists_cell? hi hop rfl
      exact operand_bind_sound hindex (loadCell_sound hlt)
  | storeDeref =>
      obtain ⟨index, hindex, hlt⟩ := exists_cell? hi hop rfl
      exact operand_bind_sound hindex (storeCell_sound hlt)
  | buildTuple => exact popN_bind_sound fun vs => lift_bind_sound fun v => push_sound v
  | buildList => exact popN_bind_sound fun vs => lift_bind_sound fun v => push_sound v
  | buildMap => exact lift_bind_sound fun v => push_sound v
  | storeMap => exact storeMap_sound
  | storeSubscr =>
      refine pop_bind_sound fun key => pop_bind_sound fun v => ?_
      exact pop_bind_sound fun value => lift_sound _
  | deleteSubscr => exact pop_bind_sound fun key => pop_bind_sound fun v => lift_sound _
  | unpackSequence => exact unpackSequence_sound _
  | getIter => exact getIter_sound
  | forIter =>
      obtain ⟨target, htarget⟩ := exists_target? hi hop (.inl rfl)
      exact operand_bind_sound htarget (forIter_sound target)
  | jumpForward =>
      obtain ⟨target, htarget⟩ := exists_target? hi hop (.inl rfl)
      exact operand_bind_sound htarget (jump_sound target)
  | jumpAbsolute =>
      obtain ⟨target, htarget⟩ := exists_target? hi hop (.inr rfl)
      exact operand_bind_sound htarget (jump_sound target)
  | popJumpIf cond =>
      obtain ⟨target, htarget⟩ := exists_target? hi hop (.inr rfl)
      refine operand_bind_sound htarget (pop_bind_sound fun v => heap_bind_sound fun h => ?_)
      split
      · exact jump_sound target
      · exact pure_sound _
  | jumpIfOrPop cond =>
      obtain ⟨target, htarget⟩ := exists_target? hi hop (.inr rfl)
      refine operand_bind_sound htarget (heap_bind_sound fun h => ?_)
      refine peek_sound.bind peek_popped fun v => ?_
      split
      · exact jump_sound target
      · exact pop_sound.map _
  | setup block =>
      obtain ⟨target, htarget⟩ := exists_target? hi hop (.inl rfl)
      refine operand_bind_sound htarget ?_
      intro m e m' hm h
      obtain ⟨f, below, hf, -⟩ := hm
      rw [setupBlock_run hf] at h
      cases h
  | popBlock => exact popBlock_sound
  | popExcept => exact (popCleanup_sound _).map _
  | callFunction => exact callFunction_sound _
  | makeFunction => exact makeFunction_sound _ false
  | makeClosure => exact makeFunction_sound _ true
  | _ => exact fail_sound _

lemma executeOp_sound {code : CodeObject} {op : Opcode} (hi : i.Decoded c start)
    (hop : i.opcode = some op) : Sound c (executeOp code i op) := by
  have plain : Sound c (perform code i op >>= fun _ => pure none : Exec (Option Signal)) := by
    intro m e m'' hm h
    rcases bind_error_iff.mp h with h₁ | ⟨u, m', -, h₂⟩
    · exact perform_sound hi hop m e m'' hm h₁
    · cases h₂
  cases op with
  | endFinally => exact endFinally_sound
  | breakLoop => exact pure_sound _
  | continueLoop =>
      obtain ⟨target, htarget⟩ := exists_target? hi hop (.inr rfl)
      exact operand_bind_sound htarget (pure_sound _)
  | returnValue =>
      refine pop_bind_sound fun v => sound_of_never fun m e m' h => ?_
      cases h
  | raiseVarargs => exact raiseVarargs_sound _
  | _ => exact plain

/-- **Every decoded instruction** that fails has the fault of an instruction. -/
theorem execute_sound {code : CodeObject} (hi : i.Decoded c start) : Sound c (execute code i) := by
  rw [execute]
  cases hop : i.opcode with
  | none => exact fail_sound _
  | some op => exact executeOp_sound hi hop

end Exec

/-! ### Runs -/

/-- The machine about to execute an instruction of a frame in bounds. -/
lemma Loop.InFrame.running_fetched {l : Loop} {f : Frame} {below : List Frame}
    (h : l.InFrame f below) (hf : f.InBounds) (i : Instruction) :
    (l.fetched i).Running f.code.code :=
  ⟨f.fetched i, below, h.frames_fetched i, rfl, hf.cells⟩

/-- The instruction of a frame in a run that fails has the fault of an instruction. -/
lemma Moment.Reachable.fault_ofInstruction {l : Loop} (h : Moment.Reachable (.stepping l))
    {f : Frame} {below : List Frame} (hf : l.machine.frames = f :: below) {i : Instruction}
    (hd : f.code.code.decode f.ip = .ok i) {e : Fault} {m' : Machine}
    (hx : Exec.execute l.code i (l.fetched i) = .error e m') : e.OfInstruction := by
  obtain ⟨g, rest, hin⟩ := h.current
  obtain ⟨rfl, rfl⟩ := List.cons.inj (hf.symm.trans hin.frames)
  have hbounds := (h.inBounds.cons hin.frames).1
  exact Exec.execute_sound (Code.decode_decoded hd) _ e m' (hin.running_fetched hbounds i) hx

/-- A run ends with a value, an exception or a cause, never with a fault of the machine. -/
lemma Moment.Reachable.ended_ne_internal {m : Machine} {k : Internal}
    (h : Moment.Reachable (.ended m (.error (.internal k)))) : False := by
  generalize hy : Moment.ended m (.error (.internal k)) = y at h
  induction h generalizing m k with
  | start m₀ code globals locals =>
      rcases start_cases m₀ code globals locals with ⟨l, f, ht, -⟩ | ⟨m', c, ht, -⟩
      · rw [ht] at hy
        cases hy
      · rw [ht] at hy
        cases hy
  | @next x hx ih =>
      have htransition := hx.transition
      have hfit := hx.fit
      rw [← hy] at htransition
      cases htransition with
      | finished frames popped _ =>
          obtain ⟨-, hending⟩ := Machine.popFrame_ending frames hfit popped
          cases hending
      | ended => exact ih rfl

/-- **An operand stack that has run out is the only fault of the machine.** In every run of any
code, an instruction that fails with a fault of the machine has found too few operands. There
is a current frame whenever an instruction is to be executed; no frame ends with a fault of the
machine, and no run does. -/
theorem underflow_is_only_internal_fault :
    (∀ (l : Loop) (f : Frame) (below : List Frame) (i : Instruction) (k : Internal) (m' : Machine),
      Moment.Reachable (.stepping l) → l.machine.frames = f :: below →
      f.code.code.decode f.ip = .ok i →
      Exec.execute l.code i (l.fetched i) = .error (.internal k) m' → k = .stackUnderflow) ∧
    (∀ l, Moment.Reachable (.stepping l) → l.machine.frames ≠ []) ∧
    (∀ m s k, Moment.Reachable (.leaving m s) → (m.popFrame s).2 ≠ .error (.internal k)) ∧
    ∀ (m m' : Machine) (fuel : Nat) (code : CodeObject) (globals locals : Option (Ref .namespace))
      (k : Internal),
      Loop.run fuel (m.start code globals locals) ≠ some (m', .error (.internal k)) := by
  refine ⟨?_, ?_, ?_, ?_⟩
  · intro l f below i k m' h hf hd hx
    exact h.fault_ofInstruction hf hd hx
  · intro l h hnil
    obtain ⟨f, below, hin⟩ := h.current
    rw [hin.frames] at hnil
    cases hnil
  · intro m s k h hpop
    obtain ⟨f, below, hf⟩ := h.current
    obtain ⟨⟨m', result⟩, hpopped⟩ : ∃ p, m.popFrame s = p := ⟨_, rfl⟩
    obtain ⟨-, hending⟩ := Machine.popFrame_ending hf h.fit hpopped
    rw [hpopped] at hpop
    obtain rfl : result = .error (.internal k) := hpop
    obtain ⟨r, hr⟩ := hending.propagated
    cases hr
  · intro m m' fuel code globals locals k hrun
    obtain ⟨n, hn⟩ := Moment.run_eq_some_iff.mp ⟨fuel, hrun⟩
    have hreach := Moment.reachable_iterate (.start m code globals locals) n
    rw [hn] at hreach
    exact hreach.ended_ne_internal

/-- A program pops an operand that it does not have: the machine finds too few operands. The
frame ends with an exception, and so does the run. -/
theorem underflow_of_pop_is_internal_fault :
    let code : CodeObject := ⟨default, { Code.empty "f" with bytecode := #[1] }⟩
    let m : Machine := { builtins := ⟨0⟩ }
    let x := Moment.ofTurn (m.start code none none)
    (∃ l f i k m', x = .stepping l ∧ l.machine.frames = [f] ∧ l.machine.frames ≠ [] ∧
      f.code.code.decode f.ip = .ok i ∧
      Exec.execute l.code i (l.fetched i) = .error (.internal k) m' ∧ k = .stackUnderflow) ∧
    (∃ m₂, Moment.next^[2] x = .leaving m₂ .raising ∧
      ∀ k, (m₂.popFrame .raising).2 ≠ .error (.internal k)) ∧
    (Loop.run 1 (m.start code none none)).isSome ∧
    ∀ m₃ k, Loop.run 1 (m.start code none none) ≠ some (m₃, .error (.internal k)) := by
  intro code m x
  have hmoments : (∃ m₂, Moment.next^[2] x = .leaving m₂ .raising) ∧
      (Loop.run 1 (m.start code none none)).isSome := by
    decide +kernel +revert
  obtain ⟨⟨m₂, h₂⟩, hends⟩ := hmoments
  obtain ⟨handlers, current, frames, runs⟩ := underflow_is_only_internal_fault
  obtain ⟨l, f, i, m', hl, hf, hd, hx⟩ : ∃ l f i m', x = .stepping l ∧ l.machine.frames = [f] ∧
      f.code.code.decode f.ip = .ok i ∧
      Exec.execute l.code i (l.fetched i) = .error (.internal .stackUnderflow) m' :=
    ⟨_, _, _, _, by cbv, rfl, by cbv, by cbv⟩
  have hreach : Moment.Reachable x := .start m code none none
  refine ⟨⟨l, f, i, _, m', hl, hf, current l (hl ▸ hreach), hd, hx,
    handlers l f [] i _ m' (hl ▸ hreach) hf hd hx⟩, ⟨m₂, h₂, ?_⟩, hends, ?_⟩
  · intro k
    exact frames m₂ .raising k (h₂ ▸ Moment.reachable_iterate hreach 2)
  · intro m₃ k
    exact runs m m₃ 1 code none none k

end StackVM
