/-
What directives leave in the code object that they give. Each directive only adds to the stream
and to the tables; filling in the jumps changes their argument bytes and no others. So the
instructions that were written lie in the stream one after the other.

* `Directive.opcode?`, `Assembler.argument?`: the instruction that a directive writes;
* `Emission`, `Assembler.emissions`: the instructions written by directives, with their offsets;
* `Assembler.Extends`: a later state of an assembly;
* `Assembler.Declares`: a later state to which only declarations have led;
* `Assembler.Writes`: the bytes of an instruction are added to the stream;
* `Emission.Stored`: the bytes of an instruction are in the stream of a code object;
* `Emission.Tiles`: instructions fill the stream from an offset on;
* `Assembler.tiles_emissions`: the instructions that were written fill the whole stream.
-/
import Mathlib.Tactic.Lemma
import StackVM.Assembler

namespace StackVM

/-! ### Emissions -/

/-- The opcode of the instruction that a directive writes, if it writes one. -/
def Directive.opcode? : Directive → Option Opcode
  | .op o | .arg o _ | .name o _ | .local o _ | .deref o _ | .jump o _ => some o
  | .const _ => some .loadConst
  | .compare _ => some .compare
  | .call _ _ => some .callFunction
  | .makeFunction _ _ closure => some (if closure then .makeClosure else .makeFunction)
  | _ => none

/-- An instruction that was written. -/
structure Emission where
  /-- The directive that wrote it. -/
  directive : Directive
  op : Opcode
  /-- The argument; that of a jump is filled in at the end. -/
  arg? : Option UInt32
  /-- The offset before the directive. -/
  offset : Nat
  /-- The offset after the directive. -/
  next : Nat

namespace Assembler

variable {a b a' : Assembler} {op : Opcode} {n : UInt32}

/-- The argument that a directive writes: zero for an opcode without one, none for a jump. -/
def argument? (a : Assembler) : Directive → Option UInt32
  | .op _ => some 0
  | .arg _ n => some n
  | .const c => some (indexArg (internConst a.consts c).1)
  | .name _ s => some (indexArg (intern a.names s).1)
  | .local _ s => some (indexArg (intern a.varnames s).1)
  | .deref _ s => (a.cellIndex? s).map indexArg
  | .compare op => some (UInt32.ofNat op.index)
  | .call positional keyword => some (pairArg positional keyword)
  | .makeFunction defaults kwdefaults _ => some (pairArg defaults kwdefaults)
  | _ => none

/-- The instruction that a directive writes. -/
def emission? (a : Assembler) (d : Directive) : Option Emission :=
  d.opcode?.map fun op => ⟨d, op, a.argument? d, a.offset, (a.apply d).offset⟩

/-- The instructions that directives write, in order. -/
def emissions (a : Assembler) : List Directive → List Emission
  | [] => []
  | d :: ds => (a.emission? d).toList ++ (a.apply d).emissions ds

/-! ### Later states -/

/-- The state `b` is the state `a` later in an assembly: the stream and the tables have grown,
new jumps lie in the new part of the stream, and problems have not gone away. -/
structure Extends (a b : Assembler) : Prop where
  bytecode : a.bytecode.toList <+: b.bytecode.toList
  patches : ∃ ps, b.patches.toList = a.patches.toList ++ ps ∧ ∀ p ∈ ps, a.offset ≤ p.pos
  consts : a.consts.toList <+: b.consts.toList
  names : a.names.toList <+: b.names.toList
  varnames : a.varnames.toList <+: b.varnames.toList
  error : b.error = none → a.error = none

namespace Extends

/-- A change of the tables or of the bookkeeping. -/
lemma of_stream_eq (hbytecode : b.bytecode = a.bytecode) (hpatches : b.patches = a.patches)
    (hconsts : a.consts.toList <+: b.consts.toList) (hnames : a.names.toList <+: b.names.toList)
    (hvarnames : a.varnames.toList <+: b.varnames.toList)
    (herror : b.error = none → a.error = none) : a.Extends b := by
  refine ⟨hbytecode ▸ List.prefix_rfl, ⟨[], ?_, List.forall_mem_nil _⟩, hconsts, hnames, hvarnames,
    herror⟩
  rw [hpatches, List.append_nil]

lemma refl (a : Assembler) : a.Extends a :=
  of_stream_eq rfl rfl List.prefix_rfl List.prefix_rfl List.prefix_rfl id

lemma offset_le (h : a.Extends b) : a.offset ≤ b.offset := by
  have hlength := h.bytecode.length_le
  rwa [Array.length_toList, Array.length_toList] at hlength

lemma trans {c : Assembler} (h : a.Extends b) (h' : b.Extends c) : a.Extends c := by
  refine ⟨h.bytecode.trans h'.bytecode, ?_, h.consts.trans h'.consts, h.names.trans h'.names,
    h.varnames.trans h'.varnames, fun he => h.error (h'.error he)⟩
  obtain ⟨ps, hps, hpos⟩ := h.patches
  obtain ⟨qs, hqs, hpos'⟩ := h'.patches
  refine ⟨ps ++ qs, by rw [hqs, hps, List.append_assoc], ?_⟩
  intro p hp
  rcases List.mem_append.mp hp with hp | hp
  · exact hpos p hp
  · exact Nat.le_trans h.offset_le (hpos' p hp)

end Extends

/-! ### Declarations -/

/-- The state `b` comes from `a` by declarations: these add parameters, and write nothing. -/
structure Declares (a b : Assembler) : Prop where
  bytecode : b.bytecode = a.bytecode
  patches : b.patches = a.patches
  consts : b.consts = a.consts
  names : b.names = a.names
  varnames : a.varnames.toList <+: b.varnames.toList
  error : b.error = none → a.error = none

namespace Declares

lemma refl (a : Assembler) : a.Declares a :=
  ⟨rfl, rfl, rfl, rfl, List.prefix_rfl, id⟩

lemma trans {c : Assembler} (h : a.Declares b) (h' : b.Declares c) : a.Declares c :=
  ⟨h'.bytecode.trans h.bytecode, h'.patches.trans h.patches, h'.consts.trans h.consts,
    h'.names.trans h.names, h.varnames.trans h'.varnames, fun he => h.error (h'.error he)⟩

lemma toExtends (h : a.Declares b) : a.Extends b :=
  .of_stream_eq h.bytecode h.patches (h.consts ▸ List.prefix_rfl) (h.names ▸ List.prefix_rfl)
    h.varnames h.error

end Declares

lemma declares_fail (a : Assembler) (e : BuildError) : a.Declares (a.fail e) :=
  ⟨rfl, rfl, rfl, rfl, List.prefix_rfl, fun h => (Option.or_eq_none_iff.mp h).1⟩

lemma declares_failIf (a : Assembler) (cond : Bool) (e : BuildError) :
    a.Declares (a.failIf cond e) := by
  rw [failIf]
  split
  · exact a.declares_fail e
  · exact .refl a

lemma declares_pushParams (a : Assembler) (names : List String) :
    a.Declares (a.pushParams names) := by
  have happend : ∀ b : Assembler,
      b.Declares { b with varnames := b.varnames ++ names.toArray } := by
    intro b
    refine ⟨rfl, rfl, rfl, rfl, ?_, id⟩
    rw [Array.toList_append]
    exact List.prefix_append _ _
  exact (a.declares_failIf _ _).trans (happend _)

/-- Parameters are declared in order. -/
lemma declares_params (a : Assembler) (cond : Bool) (e : BuildError) (names : List String) :
    a.Declares ((a.failIf cond e).pushParams names) :=
  (a.declares_failIf cond e).trans (declares_pushParams _ names)

/-- The counts of parameters do not matter. -/
lemma declares_counted {argCount kwonlyArgCount : Nat} {hasVarargs hasVarkeywords : Bool}
    (h : b = { a with argCount, kwonlyArgCount, hasVarargs, hasVarkeywords }) : a.Declares b :=
  h ▸ ⟨rfl, rfl, rfl, rfl, List.prefix_rfl, id⟩

/-- **A directive that writes no instruction** is a declaration. -/
lemma declares_apply {d : Directive} (hop : d.opcode? = none) : a.Declares (a.apply d) := by
  cases d with
  | newLabel => exact ⟨rfl, rfl, rfl, rfl, List.prefix_rfl, id⟩
  | bind label =>
      rw [apply, bindLabel]
      split
      · exact ⟨rfl, rfl, rfl, rfl, List.prefix_rfl, id⟩
      · exact a.declares_fail _
  | args names =>
      rw [apply, withArgs]
      exact (a.declares_params _ _ names).trans (declares_counted rfl)
  | kwonlyArgs names =>
      rw [apply, withKwonlyArgs]
      exact (a.declares_params _ _ names).trans (declares_counted rfl)
  | varargs name =>
      rw [apply, withVarargs]
      exact (a.declares_params _ _ [name]).trans (declares_counted rfl)
  | varkeywords name =>
      rw [apply, withVarkeywords]
      exact (a.declares_params _ _ [name]).trans (declares_counted rfl)
  | cellvars names => exact ⟨rfl, rfl, rfl, rfl, List.prefix_rfl, id⟩
  | freevars names => exact ⟨rfl, rfl, rfl, rfl, List.prefix_rfl, id⟩
  | _ => cases hop

/-! ### What directives add -/

lemma toList_write (a : Assembler) (bs : List UInt8) :
    (a.write bs).bytecode.toList = a.bytecode.toList ++ bs := by
  rw [write]
  generalize a.bytecode = stream
  induction bs generalizing stream with
  | nil => exact (List.append_nil _).symm
  | cons b bs ih => rw [List.foldl_cons, ih, Array.toList_push, List.append_assoc]; rfl

lemma error_fail_ne (a : Assembler) (e : BuildError) : (a.fail e).error ≠ none := by
  intro h
  cases (Option.or_eq_none_iff.mp h).2

lemma extends_write (a : Assembler) (bs : List UInt8) : a.Extends (a.write bs) := by
  refine ⟨?_, ⟨[], (List.append_nil _).symm, List.forall_mem_nil _⟩, List.prefix_rfl,
    List.prefix_rfl, List.prefix_rfl, id⟩
  rw [toList_write]
  exact List.prefix_append _ _

lemma extends_track (a : Assembler) (op : Opcode) (arg : Nat) : a.Extends (a.track op arg) :=
  .of_stream_eq rfl rfl List.prefix_rfl List.prefix_rfl List.prefix_rfl id

lemma extends_emit (a : Assembler) (op : Opcode) : a.Extends (a.emit op) := by
  rw [emit]
  split
  · exact (a.declares_fail _).toExtends
  · exact (a.extends_write _).trans (extends_track _ _ _)

lemma extends_emitArg (a : Assembler) (op : Opcode) (n : UInt32) : a.Extends (a.emitArg op n) := by
  rw [emitArg]
  split
  · exact (a.declares_fail _).toExtends
  split
  · exact (a.declares_fail _).toExtends
  · exact (a.extends_write _).trans (extends_track _ _ _)

lemma extends_emitJump (a : Assembler) (op : Opcode) (label : Nat) :
    a.Extends (a.emitJump op label) := by
  rw [emitJump]
  split
  · refine Extends.trans ?_ ((extends_write _ _).trans (extends_track _ _ _))
    refine ⟨List.prefix_rfl, ⟨[_], Array.toList_push, ?_⟩, List.prefix_rfl, List.prefix_rfl,
      List.prefix_rfl, id⟩
    intro p hp
    exact Nat.le_of_eq (congrArg Patch.pos (List.mem_singleton.mp hp)).symm
  · exact (a.declares_fail _).toExtends

/-- Interning a name adds to the table at most. -/
lemma prefix_intern (table : Array String) (s : String) :
    table.toList <+: (intern table s).2.toList := by
  rw [intern]
  split
  · exact List.prefix_rfl
  · rw [Array.toList_push]
    exact List.prefix_append _ _

/-- Interning a constant adds to the pool at most. -/
lemma prefix_internConst (pool : Array Const) (c : Const) :
    pool.toList <+: (internConst pool c).2.toList := by
  rw [internConst]
  split
  · exact List.prefix_rfl
  · rw [Array.toList_push]
    exact List.prefix_append _ _

/-- **A directive** leads to a later state. -/
lemma extends_apply (a : Assembler) (d : Directive) : a.Extends (a.apply d) := by
  cases d with
  | op op => exact a.extends_emit op
  | arg op n => exact a.extends_emitArg op n
  | const c =>
      have htable : a.Extends { a with consts := (internConst a.consts c).2 } :=
        .of_stream_eq rfl rfl (prefix_internConst _ _) List.prefix_rfl List.prefix_rfl id
      exact htable.trans (extends_emitArg _ .loadConst _)
  | name op s =>
      have htable : a.Extends { a with names := (intern a.names s).2 } :=
        .of_stream_eq rfl rfl List.prefix_rfl (prefix_intern _ _) List.prefix_rfl id
      exact htable.trans (extends_emitArg _ op _)
  | «local» op s =>
      have htable : a.Extends { a with varnames := (intern a.varnames s).2 } :=
        .of_stream_eq rfl rfl List.prefix_rfl List.prefix_rfl (prefix_intern _ _) id
      exact htable.trans (extends_emitArg _ op _)
  | deref op s =>
      rw [apply, emitDeref]
      split
      · exact a.extends_emitArg _ _
      · exact (a.declares_fail _).toExtends
  | compare op => exact a.extends_emitArg _ _
  | call positional keyword => exact a.extends_emitArg _ _
  | makeFunction defaults kwdefaults closure => exact a.extends_emitArg _ _
  | jump op label => exact a.extends_emitJump op label
  | _ => exact (declares_apply rfl).toExtends

/-- **Directives** lead to a later state. -/
lemma extends_run (a : Assembler) (ds : List Directive) : a.Extends (a.run ds) := by
  induction ds generalizing a with
  | nil => exact .refl a
  | cons d ds ih => exact (a.extends_apply d).trans (ih (a.apply d))

/-! ### Instructions -/

/-- The instruction of an opcode and an argument is added to the stream, and nothing else. -/
inductive Writes (a a' : Assembler) (op : Opcode) : Option UInt32 → Prop where
  | plain (hasArg : op.hasArg = false)
      (bytecode : a'.bytecode.toList = a.bytecode.toList ++ [op.toByte])
      (patches : a'.patches.toList = a.patches.toList) : Writes a a' op (some 0)
  | withArg {n : UInt32} (hasArg : op.hasArg = true) (ne_extended : op ≠ .extendedArg)
      (bytecode : a'.bytecode.toList = a.bytecode.toList ++ argBytes op n)
      (patches : a'.patches.toList = a.patches.toList) : Writes a a' op (some n)
  | jump {label : Nat} {relative : Bool} (isJump : isJump op = true)
      (bytecode : a'.bytecode.toList = a.bytecode.toList ++ [op.toByte, 0, 0])
      (patches : a'.patches.toList = a.patches.toList ++ [⟨a.offset, label, relative⟩]) :
      Writes a a' op none

/-- Only the stream and the jumps matter. -/
lemma Writes.congr {a₀ : Assembler} {arg? : Option UInt32} (h : Writes a a' op arg?)
    (hbytecode : a.bytecode = a₀.bytecode) (hpatches : a.patches = a₀.patches) :
    Writes a₀ a' op arg? := by
  cases h with
  | plain hasArg bytecode patches =>
      exact .plain hasArg (hbytecode ▸ bytecode) (hpatches ▸ patches)
  | withArg hasArg ne_extended bytecode patches =>
      exact .withArg hasArg ne_extended (hbytecode ▸ bytecode) (hpatches ▸ patches)
  | jump isJump bytecode patches =>
      rw [offset, hbytecode, hpatches] at patches
      exact .jump isJump (hbytecode ▸ bytecode) patches

lemma writes_emit (h : (a.emit op).error = none) : Writes a (a.emit op) op (some 0) := by
  rw [emit] at h ⊢
  split
  next hop =>
    rw [if_pos hop] at h
    exact absurd h (error_fail_ne _ _)
  next hop => exact .plain (Bool.eq_false_iff.mpr hop) (a.toList_write _) rfl

lemma writes_emitArg (h : (a.emitArg op n).error = none) :
    Writes a (a.emitArg op n) op (some n) := by
  rw [emitArg] at h ⊢
  split
  next hop =>
    rw [if_pos hop] at h
    exact absurd h (error_fail_ne _ _)
  next hop =>
    rw [if_neg hop] at h
    split
    next hjump =>
      rw [if_pos hjump] at h
      exact absurd h (error_fail_ne _ _)
    next =>
      simp only [Bool.or_eq_true, Bool.not_eq_true', beq_iff_eq, not_or, Bool.not_eq_false] at hop
      exact .withArg hop.1 hop.2 (a.toList_write _) rfl

lemma writes_emitJump {label : Nat} (h : (a.emitJump op label).error = none) :
    Writes a (a.emitJump op label) op none := by
  rw [emitJump] at h ⊢
  split
  next hop => exact .jump hop (toList_write _ _) Array.toList_push
  next hop =>
    rw [if_neg hop] at h
    exact absurd h (error_fail_ne _ _)

/-- **A directive that writes an instruction** adds just that to the stream. -/
lemma writes_apply {d : Directive} (hop : d.opcode? = some op) (h : (a.apply d).error = none) :
    Writes a (a.apply d) op (a.argument? d) := by
  cases d with
  | op o =>
      cases hop
      exact writes_emit h
  | arg o n =>
      cases hop
      exact writes_emitArg h
  | const c =>
      cases hop
      exact (writes_emitArg h).congr rfl rfl
  | name o s =>
      cases hop
      exact (writes_emitArg h).congr rfl rfl
  | «local» o s =>
      cases hop
      exact (writes_emitArg h).congr rfl rfl
  | deref o s =>
      cases hop
      rw [apply, emitDeref] at h ⊢
      rw [argument?]
      cases hindex : a.cellIndex? s with
      | none =>
          rw [hindex] at h
          exact absurd h (error_fail_ne _ _)
      | some i =>
          rw [hindex] at h
          exact writes_emitArg h
  | compare o =>
      cases hop
      exact writes_emitArg h
  | call positional keyword =>
      cases hop
      exact writes_emitArg h
  | makeFunction defaults kwdefaults closure =>
      cases hop
      exact writes_emitArg h
  | jump o label =>
      cases hop
      exact writes_emitJump h
  | _ => cases hop

/-- The jumps that are to be filled in lie inside the stream. -/
def Tidy (a : Assembler) : Prop :=
  ∀ p ∈ a.patches.toList, p.pos + 3 ≤ a.offset

lemma tidy_start (name : String) : Tidy { name } :=
  List.forall_mem_nil _

lemma offset_of_written {bs : List UInt8} (h : a'.bytecode.toList = a.bytecode.toList ++ bs) :
    a'.offset = a.offset + bs.length := by
  have hlength := congrArg List.length h
  rwa [List.length_append, Array.length_toList, Array.length_toList] at hlength

lemma Writes.tidy {arg? : Option UInt32} (h : Writes a a' op arg?) (ha : a.Tidy) : a'.Tidy := by
  intro p hp
  cases h with
  | plain _ bytecode patches =>
      have := ha p (patches ▸ hp)
      have := offset_of_written bytecode
      omega
  | withArg _ _ bytecode patches =>
      have := ha p (patches ▸ hp)
      have := offset_of_written bytecode
      omega
  | jump _ bytecode patches =>
      have hnext : a'.offset = a.offset + 3 := offset_of_written bytecode
      rw [patches] at hp
      rcases List.mem_append.mp hp with hp | hp
      · have := ha p hp
        omega
      · have := congrArg Patch.pos (List.mem_singleton.mp hp)
        dsimp only at this
        omega

lemma tidy_apply {d : Directive} (ha : a.Tidy) (h : (a.apply d).error = none) :
    (a.apply d).Tidy := by
  cases hop : d.opcode? with
  | some op => exact (writes_apply hop h).tidy ha
  | none =>
      have hd : a.Declares (a.apply d) := declares_apply hop
      rw [Tidy, offset, hd.bytecode, hd.patches]
      exact ha

/-! ### Filling in jumps -/

end Assembler

/-- The offset is that of an argument byte of the jump. -/
def Patch.Touches (p : Patch) (k : Nat) : Prop :=
  k = p.pos + 1 ∨ k = p.pos + 2

namespace Assembler

section Patching

variable {labels : Array (Option Nat)} {p : Patch} {ps : List Patch} {bytes bytes' : Array UInt8}

lemma patchArg_le {arg : Nat} (h : patchArg labels p = .ok arg) : arg ≤ 65535 := by
  rw [patchArg] at h
  split at h
  next target _ =>
    split at h
    · cases h
    · dsimp only at h
      generalize (if p.relative = true then target - (p.pos + 3) else target) = n at h
      split at h
      · cases h
      next hle =>
        cases h
        exact Nat.le_of_not_lt hle
  · cases h

lemma patchOne_ok (h : patchOne labels bytes p = .ok bytes') :
    ∃ arg, patchArg labels p = .ok arg ∧
      bytes' = (bytes.setIfInBounds (p.pos + 1) (UInt8.ofNat (arg % 256))).setIfInBounds (p.pos + 2)
        (UInt8.ofNat (arg / 256)) := by
  rw [patchOne] at h
  cases harg : patchArg labels p with
  | error e =>
      rw [harg] at h
      cases h
  | ok arg =>
      rw [harg] at h
      cases h
      exact ⟨arg, rfl, rfl⟩

/-- Jumps are filled in one after the other. -/
lemma patchAll_append_ok {qs : List Patch} (h : patchAll labels (ps ++ qs) bytes = .ok bytes') :
    ∃ mid, patchAll labels ps bytes = .ok mid ∧ patchAll labels qs mid = .ok bytes' := by
  induction ps generalizing bytes with
  | nil => exact ⟨bytes, rfl, h⟩
  | cons p ps ih =>
      rw [List.cons_append, patchAll] at h
      rw [patchAll]
      cases hone : patchOne labels bytes p with
      | error e =>
          rw [hone] at h
          cases h
      | ok mid =>
          rw [hone] at h
          exact ih h

lemma patchAll_cons_ok (h : patchAll labels (p :: ps) bytes = .ok bytes') :
    ∃ mid, patchOne labels bytes p = .ok mid ∧ patchAll labels ps mid = .ok bytes' := by
  rw [patchAll] at h
  split at h
  next mid hmid => exact ⟨mid, hmid, h⟩
  next => cases h

/-- Filling in jumps does not change the length of the stream. -/
lemma size_patchAll (h : patchAll labels ps bytes = .ok bytes') : bytes'.size = bytes.size := by
  induction ps generalizing bytes with
  | nil =>
      cases h
      rfl
  | cons p ps ih =>
      obtain ⟨mid, hmid, h⟩ := patchAll_cons_ok h
      obtain ⟨arg, -, rfl⟩ := patchOne_ok hmid
      rw [ih h, Array.size_setIfInBounds, Array.size_setIfInBounds]

/-- Filling in jumps changes their argument bytes only. -/
lemma getElem?_patchAll (h : patchAll labels ps bytes = .ok bytes') {k : Nat}
    (hk : ∀ p ∈ ps, ¬ p.Touches k) : bytes'[k]? = bytes[k]? := by
  induction ps generalizing bytes with
  | nil =>
      cases h
      rfl
  | cons p ps ih =>
      obtain ⟨hp, hps⟩ := List.forall_mem_cons.mp hk
      obtain ⟨mid, hmid, h⟩ := patchAll_cons_ok h
      obtain ⟨arg, -, rfl⟩ := patchOne_ok hmid
      rw [ih h hps, Array.getElem?_setIfInBounds_ne fun he => hp (.inr he.symm),
        Array.getElem?_setIfInBounds_ne fun he => hp (.inl he.symm)]

/-- The argument bytes of a jump that no later one touches. -/
lemma getElem?_patchAll_self {before : List Patch}
    (h : patchAll labels (before ++ p :: ps) bytes = .ok bytes') (hsize : p.pos + 2 < bytes.size)
    (hps : ∀ q ∈ ps, ¬ q.Touches (p.pos + 1) ∧ ¬ q.Touches (p.pos + 2)) :
    ∃ arg, patchArg labels p = .ok arg ∧
      bytes'[p.pos + 1]? = some (UInt8.ofNat (arg % 256)) ∧
      bytes'[p.pos + 2]? = some (UInt8.ofNat (arg / 256)) := by
  obtain ⟨mid, hbefore, h⟩ := patchAll_append_ok h
  obtain ⟨filled, hfilled, hafter⟩ := patchAll_cons_ok h
  obtain ⟨arg, harg, rfl⟩ := patchOne_ok hfilled
  have hmid := size_patchAll hbefore
  refine ⟨arg, harg, ?_, ?_⟩
  · rw [getElem?_patchAll hafter fun q hq => (hps q hq).1,
      Array.getElem?_setIfInBounds_ne (by omega),
      Array.getElem?_setIfInBounds_self_of_lt (by omega)]
  · rw [getElem?_patchAll hafter fun q hq => (hps q hq).2,
      Array.getElem?_setIfInBounds_self_of_lt (by rw [Array.size_setIfInBounds]; omega)]

end Patching

end Assembler

/-! ### The stream of a code object -/

/-- The bytes of the stream from an offset on. -/
def Code.HasBytes (c : Code) (offset : Nat) (bs : List UInt8) : Prop :=
  ∀ k b, bs[k]? = some b → c.bytecode[offset + k]? = some b

namespace Emission

/-- The instruction is in the stream of a code object. The argument of a jump is one that fits
in two bytes. -/
inductive Stored (c : Code) (e : Emission) : Prop where
  | plain (hasArg : e.op.hasArg = false) (arg : e.arg? = some 0) (next : e.next = e.offset + 1)
      (bytes : c.HasBytes e.offset [e.op.toByte])
  | withArg {n : UInt32} (hasArg : e.op.hasArg = true) (ne_extended : e.op ≠ .extendedArg)
      (arg : ∀ m, e.arg? = some m → m = n)
      (next : e.next = e.offset + (Assembler.argBytes e.op n).length)
      (bytes : c.HasBytes e.offset (Assembler.argBytes e.op n))

/-- Instructions lie in the stream one after the other, from an offset to its end. -/
inductive Tiles (c : Code) : Nat → List Emission → Prop where
  | nil : Tiles c c.bytecode.size []
  | cons {e : Emission} {es : List Emission} (stored : e.Stored c) (rest : Tiles c e.next es) :
      Tiles c e.offset (e :: es)

end Emission

namespace Assembler

variable {a b a' : Assembler} {op : Opcode}

/-- A jump takes an argument, and is no prefix of another instruction. -/
lemma hasArg_of_isJump (h : isJump op = true) : op.hasArg = true ∧ op ≠ .extendedArg := by
  refine ⟨?_, ?_⟩
  · cases op with
    | setup block => cases block <;> rfl
    | popJumpIf cond => cases cond <;> rfl
    | jumpIfOrPop cond => cases cond <;> rfl
    | forIter => rfl
    | jumpForward => rfl
    | jumpAbsolute => rfl
    | continueLoop => rfl
    | load scope => cases scope <;> cases h
    | store scope => cases scope <;> cases h
    | delete scope => cases scope <;> cases h
    | unary o => cases o <;> cases h
    | binary o =>
        cases o with
        | arith o => cases o <;> cases h
        | _ => cases h
    | inplace o => cases o <;> cases h
    | _ => cases h
  · rintro rfl
    cases h

/-- The bytes of an instruction whose argument fits in two bytes. -/
lemma argBytes_ofNat {arg : Nat} (h : arg ≤ 65535) :
    argBytes op (UInt32.ofNat arg) =
      [op.toByte, UInt8.ofNat (arg % 256), UInt8.ofNat (arg / 256)] := by
  have hsize : arg < UInt32.size := Nat.lt_of_le_of_lt h (by decide)
  have harg : (UInt32.ofNat arg).toNat = arg := UInt32.toNat_ofNat_of_lt' hsize
  rw [argBytes, harg, if_neg (by omega), Nat.mod_eq_of_lt (by omega : arg / 256 < 256)]

/-- A code object that is built has the stream with the jumps filled in. -/
lemma build_ok {c : Code} (h : b.build = .ok c) :
    b.error = none ∧ patchAll b.labels b.patches.toList b.bytecode = .ok c.bytecode ∧
      c = b.toCode c.bytecode := by
  rw [build] at h
  split at h
  · cases h
  next herror =>
    cases hpatched : patchAll b.labels b.patches.toList b.bytecode with
    | error e =>
        rw [hpatched] at h
        cases h
    | ok bytes =>
        rw [hpatched] at h
        cases h
        exact ⟨herror, rfl, rfl⟩

section Building

variable {c : Code} {bs : List UInt8}

/-- Bytes that were written and that no jump touches are in the stream. -/
lemma getElem?_of_untouched (hx : a'.Extends b)
    (hwritten : a'.bytecode.toList = a.bytecode.toList ++ bs)
    (hpatched : patchAll b.labels b.patches.toList b.bytecode = .ok c.bytecode)
    {k : Nat} {byte : UInt8} (hk : bs[k]? = some byte)
    (htouch : ∀ p ∈ b.patches.toList, ¬ p.Touches (a.offset + k)) :
    c.bytecode[a.offset + k]? = some byte := by
  obtain ⟨later, hlater⟩ := hx.bytecode
  have hat : (a.bytecode.toList ++ bs)[a.offset + k]? = some byte := by
    have hlength : a.bytecode.toList.length = a.offset := Array.length_toList
    rw [List.getElem?_append_right (by omega), hlength, Nat.add_sub_cancel_left, hk]
  have hlt := (List.getElem?_eq_some_iff.mp hat).1
  rw [getElem?_patchAll hpatched htouch, ← Array.getElem?_toList, ← hlater, hwritten,
    List.getElem?_append_left hlt, hat]

/-- The instructions written between two states are not touched by the jumps before or after. -/
lemma hasBytes_of_written (ha : a.Tidy) (hx : a'.Extends b)
    (hwritten : a'.bytecode.toList = a.bytecode.toList ++ bs)
    (hpatches : a'.patches.toList = a.patches.toList)
    (hpatched : patchAll b.labels b.patches.toList b.bytecode = .ok c.bytecode) :
    c.HasBytes a.offset bs := by
  intro k byte hk
  refine getElem?_of_untouched hx hwritten hpatched hk ?_
  have hlt := (List.getElem?_eq_some_iff.mp hk).1
  have hnext : a'.offset = a.offset + bs.length := offset_of_written hwritten
  obtain ⟨later, hlater, hpos⟩ := hx.patches
  intro p hp htouch
  rw [hlater, hpatches] at hp
  rcases List.mem_append.mp hp with hp | hp
  · have := ha p hp
    rcases htouch with htouch | htouch <;> omega
  · have := hpos p hp
    rcases htouch with htouch | htouch <;> omega

/-- The bytes of a jump are in the stream, with its argument filled in. -/
lemma hasBytes_of_jump {label : Nat} {relative : Bool} (ha : a.Tidy) (hx : a'.Extends b)
    (hwritten : a'.bytecode.toList = a.bytecode.toList ++ [op.toByte, 0, 0])
    (hpatches : a'.patches.toList = a.patches.toList ++ [⟨a.offset, label, relative⟩])
    (hpatched : patchAll b.labels b.patches.toList b.bytecode = .ok c.bytecode) :
    ∃ arg, patchArg b.labels ⟨a.offset, label, relative⟩ = .ok arg ∧
      c.HasBytes a.offset (argBytes op (UInt32.ofNat arg)) := by
  obtain ⟨later, hlater, hpos⟩ := hx.patches
  have hnext : a'.offset = a.offset + 3 := offset_of_written hwritten
  rw [hpatches, List.append_assoc] at hlater
  have hbyte : c.bytecode[a.offset + 0]? = some op.toByte := by
    refine getElem?_of_untouched hx hwritten hpatched rfl ?_
    intro p hp htouch
    rw [hlater] at hp
    rcases List.mem_append.mp hp with hp | hp
    · have := ha p hp
      rcases htouch with htouch | htouch <;> omega
    · rcases List.mem_cons.mp hp with rfl | hp
      · rcases htouch with htouch | htouch <;> dsimp only at htouch <;> omega
      · have := hpos p hp
        rcases htouch with htouch | htouch <;> omega
  rw [hlater] at hpatched
  have hsize : a'.offset ≤ b.bytecode.size := hx.offset_le
  obtain ⟨arg, harg, hlow, hhigh⟩ := getElem?_patchAll_self hpatched (by dsimp only; omega) (by
    intro q hq
    have := hpos q hq
    refine ⟨?_, ?_⟩ <;> rintro (h | h) <;> dsimp only at h <;> omega)
  refine ⟨arg, harg, ?_⟩
  rw [argBytes_ofNat (patchArg_le harg)]
  intro k byte hk
  match k with
  | 0 =>
      cases hk
      exact hbyte
  | 1 =>
      cases hk
      exact hlow
  | 2 =>
      cases hk
      exact hhigh

/-- **An instruction that was written** is in the stream of the code object. -/
lemma Writes.stored {d : Directive} {arg? : Option UInt32} (h : Writes a a' op arg?) (ha : a.Tidy)
    (hx : a'.Extends b)
    (hpatched : patchAll b.labels b.patches.toList b.bytecode = .ok c.bytecode) :
    Emission.Stored c ⟨d, op, arg?, a.offset, a'.offset⟩ := by
  cases h with
  | plain hasArg bytecode patches =>
      exact .plain hasArg rfl (offset_of_written bytecode)
        (hasBytes_of_written ha hx bytecode patches hpatched)
  | withArg hasArg ne_extended bytecode patches =>
      refine .withArg hasArg ne_extended ?_ (offset_of_written bytecode)
        (hasBytes_of_written ha hx bytecode patches hpatched)
      intro m hm
      exact (Option.some.inj hm).symm
  | jump isJump bytecode patches =>
      obtain ⟨hasArg, ne_extended⟩ := hasArg_of_isJump isJump
      obtain ⟨arg, harg, hbytes⟩ := hasBytes_of_jump ha hx bytecode patches hpatched
      have hnext : a'.offset = a.offset + 3 := offset_of_written bytecode
      refine .withArg hasArg ne_extended nofun ?_ hbytes
      rw [argBytes_ofNat (patchArg_le harg)]
      exact hnext

/-- **The instructions that directives write** fill the stream from the offset before them to
its end. -/
theorem tiles_emissions {ds : List Directive} (ha : a.Tidy) (h : (a.run ds).build = .ok c) :
    Emission.Tiles c a.offset (a.emissions ds) := by
  obtain ⟨herror, hpatched, -⟩ := build_ok h
  induction ds generalizing a with
  | nil =>
      have hsize : c.bytecode.size = a.offset := size_patchAll hpatched
      rw [← hsize]
      exact .nil
  | cons d ds ih =>
      have hx : (a.apply d).Extends (a.run (d :: ds)) := (a.apply d).extends_run ds
      have hd := hx.error herror
      have hrest := ih (tidy_apply ha hd) h herror hpatched
      rw [emissions, emission?]
      cases hop : d.opcode? with
      | none =>
          have hoffset : (a.apply d).offset = a.offset :=
            congrArg Array.size (declares_apply hop).bytecode
          rw [← hoffset]
          exact hrest
      | some op => exact .cons ((writes_apply hop hd).stored ha hx hpatched) hrest

end Building

/-! ### Names -/

/-- An instruction was written by one of the directives, in the state that those before it have
led to. -/
lemma exists_of_mem_emissions {ds : List Directive} {e : Emission} (he : e ∈ a.emissions ds) :
    ∃ before after, ds = before ++ e.directive :: after ∧
      (a.run before).emission? e.directive = some e := by
  induction ds generalizing a with
  | nil => cases he
  | cons d ds ih =>
      rcases List.mem_append.mp he with he | he
      · have hwrites : a.emission? d = some e := Option.mem_toList.mp he
        obtain ⟨op, hop, rfl⟩ := Option.map_eq_some_iff.mp hwrites
        exact ⟨[], ds, rfl, hwrites⟩
      · obtain ⟨before, after, rfl, hwrites⟩ := ih he
        exact ⟨d :: before, after, rfl, hwrites⟩

/-- The index of an interned name is that of its first occurrence in every later table. -/
lemma intern_eq_idxOf {table : Array String} {s : String} {later : List String}
    (h : (intern table s).2.toList <+: later) :
    s ∈ later ∧ (intern table s).1 = later.idxOf s := by
  have hinterned : s ∈ (intern table s).2.toList ∧
      (intern table s).1 = (intern table s).2.toList.idxOf s := by
    obtain ⟨names⟩ := table
    rw [intern, List.findIdx?_toArray]
    split
    next i hi =>
      obtain ⟨hlt, hindex⟩ := List.findIdx?_eq_some_iff_findIdx_eq.mp hi
      have hidxOf : names.idxOf s = i := hindex
      exact ⟨List.idxOf_lt_length_iff.mp (hidxOf ▸ hlt), hidxOf.symm⟩
    next hnone =>
      have hnew : s ∉ names := by
        intro hs
        have hne := List.findIdx?_eq_none_iff.mp hnone s hs
        rw [beq_self_eq_true] at hne
        cases hne
      rw [Array.toList_push, List.idxOf_append, if_neg hnew, List.idxOf_cons_self, Nat.zero_add]
      exact ⟨List.mem_append_right _ List.mem_cons_self, rfl⟩
  obtain ⟨rest, rfl⟩ := h
  rw [List.idxOf_append, if_pos hinterned.1]
  exact ⟨List.mem_append_left rest hinterned.1, hinterned.2⟩

lemma names_emitArg (a : Assembler) (op : Opcode) (n : UInt32) :
    (a.emitArg op n).names = a.names ∧ (a.emitArg op n).varnames = a.varnames := by
  rw [emitArg]
  split
  · exact ⟨rfl, rfl⟩
  · split <;> exact ⟨rfl, rfl⟩

/-- The state after the directive of an instruction leads to the last one. -/
lemma extends_run_of_append (a : Assembler) (before : List Directive) (d : Directive)
    (after : List Directive) :
    ((a.run before).apply d).Extends (a.run (before ++ d :: after)) := by
  rw [run, run, List.foldl_append]
  exact extends_run _ after

/-- The instruction of a directive that interns a string has the index of the string in the
last table as its argument. -/
lemma interned_of_mem_emissions (table : Assembler → Array String) {ds : List Directive}
    {e : Emission} {d : Directive} {s : String} (he : e ∈ a.emissions ds) (hd : e.directive = d)
    (hop : d.opcode? = some op)
    (hargument : ∀ a : Assembler, a.argument? d = some (indexArg (intern (table a) s).1))
    (hinterns : ∀ a : Assembler, table (a.apply d) = (intern (table a) s).2)
    (hgrows : ∀ {a b : Assembler}, a.Extends b → (table a).toList <+: (table b).toList) :
    e.op = op ∧ s ∈ (table (a.run ds)).toList ∧
      e.arg? = some (indexArg ((table (a.run ds)).toList.idxOf s)) := by
  obtain ⟨before, after, rfl, hwrites⟩ := exists_of_mem_emissions he
  rw [hd] at hwrites ⊢
  have hlater := hgrows (a.extends_run_of_append before d after)
  rw [hinterns] at hlater
  obtain ⟨hmem, hindex⟩ := intern_eq_idxOf hlater
  rw [emission?, hop, hargument, hindex] at hwrites
  cases hwrites
  exact ⟨rfl, hmem, rfl⟩

lemma named_of_mem_emissions {ds : List Directive} {e : Emission} {s : String}
    (he : e ∈ a.emissions ds) (hd : e.directive = .name op s) :
    e.op = op ∧ s ∈ (a.run ds).names.toList ∧
      e.arg? = some (indexArg ((a.run ds).names.toList.idxOf s)) :=
  interned_of_mem_emissions Assembler.names he hd rfl (fun _ => rfl)
    (fun _ => (names_emitArg _ _ _).1) Extends.names

lemma local_of_mem_emissions {ds : List Directive} {e : Emission} {s : String}
    (he : e ∈ a.emissions ds) (hd : e.directive = .local op s) :
    e.op = op ∧ s ∈ (a.run ds).varnames.toList ∧
      e.arg? = some (indexArg ((a.run ds).varnames.toList.idxOf s)) :=
  interned_of_mem_emissions Assembler.varnames he hd rfl (fun _ => rfl)
    (fun _ => (names_emitArg _ _ _).2) Extends.varnames

end Assembler

end StackVM
