/-
Labels are resolved exactly. A jump is written before it is known where its label will be bound;
in the end its argument is filled in from the offset that the label has then.

* `Assembler.bindings`: the offsets that directives bind labels to;
* `Emission.label?`, `Emission.Resolves`, `Emission.Offends`: jumps that can be filled in, and what
  is wrong with one that cannot;
* `Assembler.bound_run`, `Assembler.patches_run`: the labels and the jumps after directives;
* `Assembler.patchAll_ok_iff`, `Assembler.patchAll_error_iff`: when jumps are filled in, and which
  problem is met first;
* `labels_resolve_exactly`: **the jumps of a code object**.
-/
import Mathlib
import StackVM.Proofs.RoundTrip

namespace StackVM

/-! ### Jumps and labels of a list of directives -/

/-- The label that a directive binds. -/
def Directive.binds? : Directive → Option Nat
  | .bind label => some label
  | _ => none

/-- The directive is about labels: it writes a jump, or declares or binds a label. -/
def Directive.usesLabels : Directive → Bool
  | .jump _ _ | .newLabel | .bind _ => true
  | _ => false

/-- The labels that directives bind, each with its offset. -/
def Assembler.bindings (a : Assembler) : List Directive → List (Nat × Nat)
  | [] => []
  | d :: ds => (d.binds?.map (·, a.offset)).toList ++ (a.apply d).bindings ds

namespace Emission

/-- The label that an instruction jumps to. -/
def label? (e : Emission) : Option Nat :=
  match e.directive with
  | .jump _ label => some label
  | _ => none

/-- The jump is relative to its own end. -/
def IsRelative (e : Emission) : Prop :=
  e.op.operandKind = .jumpRel

instance (e : Emission) : Decidable e.IsRelative :=
  inferInstanceAs (Decidable (_ = _))

/-- What the argument of a jump to an offset encodes: the distance from its end, or the offset. -/
def encoded (e : Emission) (target : Nat) : Nat :=
  if e.IsRelative then target - e.next else target

/-- The jump can be filled in: its label is bound, at the end of the jump or after it if that is
relative, and two bytes hold what is to be encoded. -/
def Resolves (bound : List (Nat × Nat)) (e : Emission) (label : Nat) : Prop :=
  ∃ target, (label, target) ∈ bound ∧ (e.IsRelative → e.next ≤ target) ∧ e.encoded target ≤ 65535

/-- What is wrong with a jump that cannot be filled in. -/
inductive Offends (bound : List (Nat × Nat)) (e : Emission) (label : Nat) : BuildError → Prop where
  | unbound (unbound : ∀ target, (label, target) ∉ bound) : Offends bound e label .unboundLabel
  | backward {target : Nat} (mem : (label, target) ∈ bound) (relative : e.IsRelative)
      (before : target < e.next) : Offends bound e label (.backwardRelativeJump e.offset)
  | tooFar {target : Nat} (mem : (label, target) ∈ bound)
      (forward : e.IsRelative → e.next ≤ target) (far : 65535 < e.encoded target) :
      Offends bound e label (.jumpTooFar e.offset)

/-- The entry of a jump among those that are filled in at the end. -/
def patch? (e : Emission) : Option Patch :=
  e.label?.map fun label => ⟨e.offset, label, e.op.operandKind == .jumpRel⟩

end Emission

namespace Assembler

variable {a b : Assembler} {d : Directive} {ds : List Directive}

/-! ### Jumps and labels after directives -/

/-- The state `b` has the jumps and the labels of the state `a`. -/
structure SameJumps (a b : Assembler) : Prop where
  patches : b.patches = a.patches
  labels : b.labels = a.labels

lemma sameJumps_params (a : Assembler) (cond : Bool) (e : BuildError) (names : List String) :
    a.SameJumps ((a.failIf cond e).pushParams names) := by
  have hfailIf : ∀ (b : Assembler) (cond : Bool) (e : BuildError),
      b.SameJumps (b.failIf cond e) := by
    intro b cond e
    rw [failIf]
    split <;> exact ⟨rfl, rfl⟩
  have hfirst := hfailIf a cond e
  have hsecond := hfailIf (a.failIf cond e) ((a.failIf cond e).varnames.size !=
    (a.failIf cond e).argCount + (a.failIf cond e).kwonlyArgCount + (a.failIf cond e).starCount)
    .paramsAfterLocals
  exact ⟨hsecond.patches.trans hfirst.patches, hsecond.labels.trans hfirst.labels⟩

lemma sameJumps_emitArg (a : Assembler) (op : Opcode) (n : UInt32) :
    a.SameJumps (a.emitArg op n) := by
  rw [emitArg]
  split
  · exact ⟨rfl, rfl⟩
  · split <;> exact ⟨rfl, rfl⟩

/-- **Other directives** leave the jumps and the labels alone. -/
lemma sameJumps_apply (hd : d.usesLabels = false) : a.SameJumps (a.apply d) := by
  cases d with
  | jump op label => cases hd
  | newLabel => cases hd
  | bind label => cases hd
  | op op =>
      rw [apply, emit]
      split <;> exact ⟨rfl, rfl⟩
  | deref op s =>
      rw [apply, emitDeref]
      split
      · exact a.sameJumps_emitArg op _
      · exact ⟨rfl, rfl⟩
  | const c =>
      obtain ⟨h₁, h₂⟩ := sameJumps_emitArg { a with consts := (internConst a.consts c).2 }
        .loadConst (indexArg (internConst a.consts c).1)
      exact ⟨h₁, h₂⟩
  | name op s =>
      obtain ⟨h₁, h₂⟩ := sameJumps_emitArg { a with names := (intern a.names s).2 } op
        (indexArg (intern a.names s).1)
      exact ⟨h₁, h₂⟩
  | «local» op s =>
      obtain ⟨h₁, h₂⟩ := sameJumps_emitArg { a with varnames := (intern a.varnames s).2 } op
        (indexArg (intern a.varnames s).1)
      exact ⟨h₁, h₂⟩
  | args names =>
      obtain ⟨h₁, h₂⟩ := a.sameJumps_params _ _ names
      exact ⟨h₁, h₂⟩
  | kwonlyArgs names =>
      obtain ⟨h₁, h₂⟩ := a.sameJumps_params _ _ names
      exact ⟨h₁, h₂⟩
  | varargs name =>
      obtain ⟨h₁, h₂⟩ := a.sameJumps_params _ _ [name]
      exact ⟨h₁, h₂⟩
  | varkeywords name =>
      obtain ⟨h₁, h₂⟩ := a.sameJumps_params _ _ [name]
      exact ⟨h₁, h₂⟩
  | cellvars names => exact ⟨rfl, rfl⟩
  | freevars names => exact ⟨rfl, rfl⟩
  | _ => exact a.sameJumps_emitArg _ _

/-- A jump is written with an opcode that jumps, and is put on the list. -/
lemma jump_apply {op : Opcode} {label : Nat} (h : (a.apply (.jump op label)).error = none) :
    isJump op = true ∧
      (a.apply (.jump op label)).bytecode.toList = a.bytecode.toList ++ [op.toByte, 0, 0] ∧
      (a.apply (.jump op label)).patches.toList =
        a.patches.toList ++ [⟨a.offset, label, op.operandKind == .jumpRel⟩] ∧
      (a.apply (.jump op label)).labels = a.labels := by
  rw [apply, emitJump] at h ⊢
  split
  next hop => exact ⟨hop, toList_write _ _, Array.toList_push, rfl⟩
  next hop =>
    rw [if_neg hop] at h
    exact absurd h (error_fail_ne _ _)

/-- **One directive** puts the jump that it writes on the list. -/
lemma patches_apply (h : (a.apply d).error = none) :
    (a.apply d).patches.toList =
      a.patches.toList ++ (a.emission? d).toList.filterMap Emission.patch? := by
  cases d with
  | jump op label => exact (jump_apply h).2.2.1
  | newLabel => exact (List.append_nil _).symm
  | bind label =>
      rw [apply, bindLabel]
      split <;> exact (List.append_nil _).symm
  | _ =>
      rw [(sameJumps_apply rfl).patches]
      exact (List.append_nil _).symm

/-- **The jumps after directives** are those that they wrote, in order. -/
lemma patches_run (h : (a.run ds).error = none) :
    (a.run ds).patches.toList =
      a.patches.toList ++ (a.emissions ds).filterMap Emission.patch? := by
  induction ds generalizing a with
  | nil => exact (List.append_nil _).symm
  | cons d ds ih =>
      have hd := ((a.apply d).extends_run ds).error h
      rw [emissions, List.filterMap_append, ← List.append_assoc, ← patches_apply hd]
      exact ih h

/-- **One directive** binds a label at most. -/
lemma bound_apply (h : (a.apply d).error = none) (label target : Nat) :
    (a.apply d).labels[label]? = some (some target) ↔
      a.labels[label]? = some (some target) ∨ d.binds? = some label ∧ a.offset = target := by
  have hkeeps : ∀ b : Assembler, b.labels = a.labels → d.binds? = none →
      (b.labels[label]? = some (some target) ↔
        a.labels[label]? = some (some target) ∨ d.binds? = some label ∧ a.offset = target) := by
    intro b hb hd
    rw [hb, hd]
    simp
  cases d with
  | jump op l => exact hkeeps _ (jump_apply h).2.2.2 rfl
  | newLabel =>
      simp only [apply, Array.getElem?_push, Directive.binds?, reduceCtorEq, false_and, or_false]
      split
      next hlast => simp [hlast]
      next => rfl
  | bind l =>
      rw [apply, bindLabel] at h ⊢
      split
      next hfree =>
        obtain ⟨hlt, -⟩ := Array.getElem?_eq_some_iff.mp hfree
        by_cases hl : l = label
        · subst hl
          rw [Array.getElem?_setIfInBounds_self_of_lt hlt, hfree]
          simp [Directive.binds?]
        · simp [hl, Directive.binds?]
      next hbound =>
        split at h
        next hfree => exact absurd hfree hbound
        next => exact absurd h (error_fail_ne _ _)
  | _ => exact hkeeps _ (sameJumps_apply rfl).labels rfl

/-- **The labels after directives** are bound where they say. -/
lemma bound_run (h : (a.run ds).error = none) (label target : Nat) :
    (a.run ds).labels[label]? = some (some target) ↔
      a.labels[label]? = some (some target) ∨ (label, target) ∈ a.bindings ds := by
  induction ds generalizing a with
  | nil => simp [run, bindings]
  | cons d ds ih =>
      have hd := ((a.apply d).extends_run ds).error h
      have hrest : (a.run (d :: ds)).labels[label]? = some (some target) ↔ _ := ih h
      rw [hrest, bound_apply hd, bindings, List.mem_append, or_assoc]
      simp [Option.mem_toList, eq_comm]

/-- Labels are bound inside the stream. -/
lemma bindings_le (label target : Nat) (h : (label, target) ∈ a.bindings ds) :
    target ≤ (a.run ds).offset := by
  induction ds generalizing a with
  | nil => cases h
  | cons d ds ih =>
      rcases List.mem_append.mp h with h | h
      · obtain ⟨l, -, hl⟩ := Option.map_eq_some_iff.mp (Option.mem_toList.mp h)
        cases hl
        exact (a.extends_run (d :: ds)).offset_le
      · exact ih h

/-! ### Filling in -/

section Patching

variable {labels : Array (Option Nat)} {ps : List Patch} {bytes : Array UInt8} {err : BuildError}

/-- Jumps can be filled in if each of them can be. -/
lemma patchAll_ok_iff :
    (∃ bytes', patchAll labels ps bytes = .ok bytes') ↔
      ∀ p ∈ ps, ∃ arg, patchArg labels p = .ok arg := by
  induction ps generalizing bytes with
  | nil => simp [patchAll]
  | cons p ps ih =>
      rw [patchAll, patchOne, List.forall_mem_cons]
      cases patchArg labels p with
      | error e => simp [Except.map]
      | ok arg => simp [Except.map, ih]

/-- The problem of the first jump that cannot be filled in is met. -/
lemma patchAll_error_iff :
    patchAll labels ps bytes = .error err ↔
      ∃ before p after, ps = before ++ p :: after ∧
        (∀ q ∈ before, ∃ arg, patchArg labels q = .ok arg) ∧ patchArg labels p = .error err := by
  induction ps generalizing bytes with
  | nil => simp [patchAll]
  | cons p ps ih =>
      rw [patchAll, patchOne]
      constructor
      · cases harg : patchArg labels p with
        | error e =>
            intro h
            cases h
            exact ⟨[], p, ps, rfl, List.forall_mem_nil _, harg⟩
        | ok arg =>
            intro h
            obtain ⟨before, q, after, rfl, hbefore, hq⟩ := ih.mp h
            exact ⟨p :: before, q, after, rfl, List.forall_mem_cons.mpr ⟨⟨arg, harg⟩, hbefore⟩, hq⟩
      · rintro ⟨before, q, after, hsplit, hbefore, hq⟩
        cases before with
        | nil =>
            cases hsplit
            rw [hq]
            rfl
        | cons p' before =>
            cases hsplit
            obtain ⟨⟨arg, harg⟩, hbefore⟩ := List.forall_mem_cons.mp hbefore
            rw [harg]
            exact ih.mpr ⟨before, q, after, rfl, hbefore, hq⟩

end Patching

end Assembler

/-! ### Jumps of a list of directives -/

namespace Emission

variable {e : Emission} {label target : Nat} {labels : Array (Option Nat)}
  {bound : List (Nat × Nat)} {err : BuildError}

lemma patch?_of_label (h : e.label? = some label) :
    e.patch? = some ⟨e.offset, label, e.op.operandKind == .jumpRel⟩ := by
  rw [patch?, h, Option.map_some]

/-- The argument of a jump whose label is bound. -/
lemma patchArg_of_bound (hnext : e.next = e.offset + 3)
    (hlabel : labels[label]? = some (some target)) :
    Assembler.patchArg labels ⟨e.offset, label, e.op.operandKind == .jumpRel⟩ =
      if e.IsRelative ∧ target < e.next then .error (.backwardRelativeJump e.offset)
      else if 65535 < e.encoded target then .error (.jumpTooFar e.offset)
      else .ok (e.encoded target) := by
  rw [Assembler.patchArg, hlabel]
  simp only [beq_iff_eq, encoded, IsRelative, hnext]

lemma patchArg_ok_iff (hnext : e.next = e.offset + 3)
    (hlabel : labels[label]? = some (some target)) {arg : Nat} :
    Assembler.patchArg labels ⟨e.offset, label, e.op.operandKind == .jumpRel⟩ = .ok arg ↔
      (e.IsRelative → e.next ≤ target) ∧ e.encoded target ≤ 65535 ∧ e.encoded target = arg := by
  rw [patchArg_of_bound hnext hlabel]
  by_cases hbackward : e.IsRelative ∧ target < e.next
  · rw [if_pos hbackward]
    simp only [reduceCtorEq, false_iff]
    exact fun h => Nat.not_lt.mpr (h.1 hbackward.1) hbackward.2
  · have hforward : e.IsRelative → e.next ≤ target := fun hrelative =>
      Nat.le_of_not_lt fun hlt => hbackward ⟨hrelative, hlt⟩
    rw [if_neg hbackward]
    split
    next hfar => simp [hfar]
    next hnear => simp [Nat.le_of_not_lt hnear, iff_true_intro hforward]

/-- A label that is not bound. -/
lemma patchArg_of_unbound {p : Patch} (h : ∀ target, labels[p.label]? ≠ some (some target)) :
    Assembler.patchArg labels p = .error .unboundLabel := by
  rw [Assembler.patchArg]
  split
  next target htarget => exact absurd htarget (h target)
  next => rfl

section Labels

variable (hnext : e.next = e.offset + 3)
  (hbound : ∀ target, labels[label]? = some (some target) ↔ (label, target) ∈ bound)
include hnext hbound

/-- A jump has an argument if it can be filled in. -/
lemma exists_patchArg_iff :
    (∃ arg, Assembler.patchArg labels ⟨e.offset, label, e.op.operandKind == .jumpRel⟩ = .ok arg) ↔
      e.Resolves bound label := by
  constructor
  · rintro ⟨arg, harg⟩
    by_cases hlabel : ∃ target, labels[label]? = some (some target)
    · obtain ⟨target, hlabel⟩ := hlabel
      obtain ⟨hforward, hnear, -⟩ := (patchArg_ok_iff hnext hlabel).mp harg
      exact ⟨target, (hbound target).mp hlabel, hforward, hnear⟩
    · rw [patchArg_of_unbound (not_exists.mp hlabel)] at harg
      cases harg
  · rintro ⟨target, hmem, hforward, hnear⟩
    exact ⟨_, (patchArg_ok_iff hnext ((hbound target).mpr hmem)).mpr ⟨hforward, hnear, rfl⟩⟩

/-- The problem of a jump is what is wrong with it. -/
lemma patchArg_error_iff :
    Assembler.patchArg labels ⟨e.offset, label, e.op.operandKind == .jumpRel⟩ = .error err ↔
      e.Offends bound label err := by
  constructor
  · intro herr
    by_cases hlabel : ∃ target, labels[label]? = some (some target)
    · obtain ⟨target, hlabel⟩ := hlabel
      have hmem := (hbound target).mp hlabel
      rw [patchArg_of_bound hnext hlabel] at herr
      split at herr
      next hbackward =>
        cases herr
        exact .backward hmem hbackward.1 hbackward.2
      next hforward =>
        split at herr
        next hfar =>
          cases herr
          refine .tooFar hmem (fun hrelative => ?_) hfar
          exact Nat.le_of_not_lt fun hlt => hforward ⟨hrelative, hlt⟩
        next => cases herr
    · rw [patchArg_of_unbound (not_exists.mp hlabel)] at herr
      cases herr
      exact .unbound fun target hmem => hlabel ⟨target, (hbound target).mpr hmem⟩
  · intro hoffends
    cases hoffends with
    | unbound hunbound =>
        exact patchArg_of_unbound fun target htarget => hunbound target ((hbound target).mp htarget)
    | @backward target hmem hrelative hbefore =>
        rw [patchArg_of_bound hnext ((hbound target).mpr hmem), if_pos ⟨hrelative, hbefore⟩]
    | @tooFar target hmem hforward hfar =>
        rw [patchArg_of_bound hnext ((hbound target).mpr hmem), if_neg, if_pos hfar]
        rintro ⟨hrelative, hlt⟩
        exact Nat.not_lt.mpr (hforward hrelative) hlt

end Labels

/-- What a jump encodes is resolved to its target. -/
lemma resolve_encoded {c : Code} (hop : Assembler.isJump e.op = true)
    (hforward : e.IsRelative → e.next ≤ target) :
    c.resolve e.op (e.encoded target) e.next = c.jumpTarget target := by
  rw [Assembler.isJump, Bool.or_eq_true, beq_iff_eq, beq_iff_eq] at hop
  rw [Code.resolve]
  rcases hop with hrelative | habsolute
  · have hencoded : e.encoded target = target - e.next := if_pos hrelative
    rw [hrelative, hencoded]
    dsimp only
    rw [Nat.add_sub_cancel' (hforward hrelative)]
  · have hencoded : e.encoded target = target := if_neg (by rw [IsRelative, habsolute]; decide)
    rw [habsolute, hencoded]

end Emission

namespace Assembler

variable {a : Assembler} {ds : List Directive} {e : Emission} {label : Nat}

lemma tidy_run (ha : a.Tidy) (h : (a.run ds).error = none) : (a.run ds).Tidy := by
  induction ds generalizing a with
  | nil => exact ha
  | cons d ds ih => exact ih (tidy_apply ha (((a.apply d).extends_run ds).error h)) h

/-- A jump was written by one of the directives, and takes three bytes. -/
lemma jump_of_mem_emissions (h : (a.run ds).error = none) (he : e ∈ a.emissions ds)
    (hlabel : e.label? = some label) :
    ∃ before after, ds = before ++ .jump e.op label :: after ∧
      e.offset = (a.run before).offset ∧ e.next = e.offset + 3 ∧
      ((a.run before).apply (.jump e.op label)).error = none := by
  obtain ⟨before, after, rfl, hwrites⟩ := exists_of_mem_emissions he
  rw [Emission.label?] at hlabel
  cases hd : e.directive with
  | jump op l =>
      rw [hd] at hlabel hwrites h
      cases hlabel
      obtain rfl : _ = e := Option.some.inj hwrites
      have herror := (a.extends_run_of_append before (.jump op label) after).error h
      exact ⟨before, after, rfl, rfl, offset_of_written (jump_apply herror).2.1, herror⟩
  | _ =>
      rw [hd] at hlabel
      cases hlabel

end Assembler

/-- **A jump is decoded to its target** if that is inside the stream. -/
lemma decode_jump {name : String} {ds : List Directive} {c : Code} {e : Emission}
    {label target : Nat} (h : assemble name ds = .ok c)
    (he : e ∈ Assembler.emissions { name } ds) (hlabel : e.label? = some label)
    (hbound : (label, target) ∈ Assembler.bindings { name } ds) :
    c.decode e.offset =
      if target < c.bytecode.size then
        .ok { offset := e.offset, next := e.next, byte := e.op.toByte, opcode := some e.op
              operand := .jump target, arg := e.encoded target }
      else .error ⟨e.offset, .jumpOutOfRange target⟩ := by
  obtain ⟨herror, hpatched, -⟩ := Assembler.build_ok h
  obtain ⟨before, after, hds, hoffset, hnext, hbefore⟩ :=
    Assembler.jump_of_mem_emissions herror he hlabel
  obtain ⟨hop, hwritten, hpatches, -⟩ := Assembler.jump_apply hbefore
  have hx := Assembler.extends_run_of_append { name } before (.jump e.op label) after
  have htidy : (Assembler.run { name } before).Tidy :=
    Assembler.tidy_run (Assembler.tidy_start name) ((Assembler.extends_apply _ _).error hbefore)
  rw [← hds] at hx
  obtain ⟨arg, harg, hbytes⟩ := Assembler.hasBytes_of_jump htidy hx hwritten hpatches hpatched
  rw [← hoffset] at harg hbytes
  -- the argument is what the jump to `target` encodes
  have hlabels := (Assembler.bound_run herror label target).mpr (.inr hbound)
  obtain ⟨hforward, hnear, rfl⟩ := (Emission.patchArg_ok_iff hnext hlabels).mp harg
  have hstored : Emission.Stored c { e with arg? := some (UInt32.ofNat (e.encoded target)) } := by
    obtain ⟨hasArg, ne_extended⟩ := Assembler.hasArg_of_isJump hop
    refine .withArg hasArg ne_extended (fun m hm => (Option.some.inj hm).symm) ?_ hbytes
    rw [Assembler.argBytes_ofNat hnear]
    exact hnext
  obtain ⟨arg, hwrittenArg, hfrom⟩ := hstored.decodeFrom
  have hfits : e.encoded target < UInt32.size := Nat.lt_of_le_of_lt hnear (by decide)
  obtain rfl : arg = e.encoded target :=
    (hwrittenArg _ rfl).trans (UInt32.toNat_ofNat_of_lt' hfits)
  dsimp only at hfrom
  rw [Code.decode, hfrom, Emission.resolve_encoded hop hforward, Code.jumpTarget]
  by_cases hinside : target < c.bytecode.size
  · rw [if_pos hinside, if_pos hinside]
    rfl
  · rw [if_neg hinside, if_neg hinside]
    rfl

section Accepted

variable {name : String} {ds : List Directive} (h : (Assembler.run { name } ds).error = none)
include h

/-- The labels of accepted directives. -/
lemma bound_of_accepted (label target : Nat) :
    (Assembler.run { name } ds).labels[label]? = some (some target) ↔
      (label, target) ∈ Assembler.bindings { name } ds := by
  rw [Assembler.bound_run h]
  simp

/-- The jumps of accepted directives. -/
lemma patches_of_accepted :
    (Assembler.run { name } ds).patches.toList =
      (Assembler.emissions { name } ds).filterMap Emission.patch? := by
  rw [Assembler.patches_run h]
  rfl

/-- The argument of a jump of accepted directives. -/
lemma patchArg_of_accepted {e : Emission} {p : Patch} (he : e ∈ Assembler.emissions { name } ds)
    (hp : e.patch? = some p) :
    ∃ label, e.label? = some label ∧
      ((∃ arg, Assembler.patchArg (Assembler.run { name } ds).labels p = .ok arg) ↔
        e.Resolves (Assembler.bindings { name } ds) label) ∧
      ∀ err, Assembler.patchArg (Assembler.run { name } ds).labels p = .error err ↔
        e.Offends (Assembler.bindings { name } ds) label err := by
  obtain ⟨label, hlabel, rfl⟩ := Option.map_eq_some_iff.mp hp
  obtain ⟨-, -, -, -, hnext, -⟩ := Assembler.jump_of_mem_emissions h he hlabel
  have hbound := bound_of_accepted h label
  exact ⟨label, hlabel, Emission.exists_patchArg_iff hnext hbound,
    fun err => Emission.patchArg_error_iff hnext hbound⟩

/-- All jumps among some instructions can be filled in. -/
lemma forall_resolves_iff {es : List Emission}
    (hes : ∀ e ∈ es, e ∈ Assembler.emissions { name } ds) :
    (∀ p ∈ es.filterMap Emission.patch?,
      ∃ arg, Assembler.patchArg (Assembler.run { name } ds).labels p = .ok arg) ↔
    ∀ e ∈ es, ∀ label, e.label? = some label →
      e.Resolves (Assembler.bindings { name } ds) label := by
  constructor
  · intro hall e he label hlabel
    have hp := Emission.patch?_of_label hlabel
    obtain ⟨label', hlabel', hresolves, -⟩ := patchArg_of_accepted h (hes e he) hp
    obtain rfl : label = label' := Option.some.inj (hlabel.symm.trans hlabel')
    exact hresolves.mp (hall _ (List.mem_filterMap.mpr ⟨e, he, hp⟩))
  · intro hall p hp
    obtain ⟨e, he, hp⟩ := List.mem_filterMap.mp hp
    obtain ⟨label, hlabel, hresolves, -⟩ := patchArg_of_accepted h (hes e he) hp
    exact hresolves.mpr (hall e he label hlabel)

lemma assemble_of_accepted :
    assemble name ds = (Assembler.patchAll (Assembler.run { name } ds).labels
      ((Assembler.emissions { name } ds).filterMap Emission.patch?)
      (Assembler.run { name } ds).bytecode).map (Assembler.run { name } ds).toCode := by
  rw [assemble, Assembler.build, h, ← patches_of_accepted h]

/-- **Accepted directives give a code object** if all jumps can be filled in. -/
lemma exists_assemble_iff :
    (∃ c, assemble name ds = .ok c) ↔
      ∀ e ∈ Assembler.emissions { name } ds, ∀ label, e.label? = some label →
        e.Resolves (Assembler.bindings { name } ds) label := by
  rw [← forall_resolves_iff h fun _ he => he, ← Assembler.patchAll_ok_iff, assemble_of_accepted h]
  cases Assembler.patchAll _ _ _ with
  | error err => simp [Except.map]
  | ok bytes => simp [Except.map]

/-- **Accepted directives fail** with the problem of the first jump that cannot be filled in. -/
lemma assemble_error_iff (err : BuildError) :
    assemble name ds = .error err ↔
      ∃ before e after label, Assembler.emissions { name } ds = before ++ e :: after ∧
        e.label? = some label ∧
        (∀ e' ∈ before, ∀ label', e'.label? = some label' →
          e'.Resolves (Assembler.bindings { name } ds) label') ∧
        e.Offends (Assembler.bindings { name } ds) label err := by
  have hpatched : assemble name ds = .error err ↔
      Assembler.patchAll (Assembler.run { name } ds).labels
        ((Assembler.emissions { name } ds).filterMap Emission.patch?)
        (Assembler.run { name } ds).bytecode = .error err := by
    rw [assemble_of_accepted h]
    cases Assembler.patchAll _ _ _ with
    | error err => simp [Except.map]
    | ok bytes => simp [Except.map]
  rw [hpatched, Assembler.patchAll_error_iff]
  constructor
  · rintro ⟨ps, p, qs, hsplit, hps, hp⟩
    obtain ⟨es, es', hes, rfl, hrest⟩ := List.filterMap_eq_append_iff.mp hsplit
    obtain ⟨plain, e, after, rfl, hplain, hpatch, -⟩ := List.filterMap_eq_cons_iff.mp hrest
    rw [← List.append_assoc] at hes
    have he : e ∈ Assembler.emissions { name } ds := by simp [hes]
    obtain ⟨label, hlabel, -, hoffends⟩ := patchArg_of_accepted h he hpatch
    refine ⟨es ++ plain, e, after, label, hes, hlabel, ?_, (hoffends err).mp hp⟩
    refine (forall_resolves_iff h fun e' he' => ?_).mp ?_
    · rw [hes]
      exact List.mem_append_left _ he'
    · rw [List.filterMap_append, List.filterMap_eq_nil_iff.mpr hplain, List.append_nil]
      exact hps
  · rintro ⟨before, e, after, label, hes, hlabel, hbefore, hoffends⟩
    have hp := Emission.patch?_of_label hlabel
    have he : e ∈ Assembler.emissions { name } ds := by simp [hes]
    obtain ⟨label', hlabel', -, hiff⟩ := patchArg_of_accepted h he hp
    obtain rfl : label = label' := Option.some.inj (hlabel.symm.trans hlabel')
    refine ⟨_, _, after.filterMap Emission.patch?, ?_,
      (forall_resolves_iff h fun e' he' => ?_).mpr hbefore, (hiff err).mpr hoffends⟩
    · rw [hes, List.filterMap_append, List.filterMap_cons_some hp]
    · rw [hes]
      exact List.mem_append_left _ he'

end Accepted

/-- **The jumps of a code object.** Let directives be accepted one by one. They give a code object
exactly if every jump that they write can be filled in: its label is bound, not before the end of
the jump if that is relative, and two bytes hold the distance or the offset. Otherwise the problem
is that of the first jump, in the order in which they were written, that cannot be filled in.

In the code object every jump is decoded to the offset of its label, or found to leave the stream
if that is the end of it. Only the two argument bytes of jumps differ from what was written. -/
theorem labels_resolve_exactly {name : String} {ds : List Directive}
    (h : (Assembler.run { name } ds).error = none) :
    let es := Assembler.emissions { name } ds
    let bound := Assembler.bindings { name } ds
    let written := (Assembler.run { name } ds).bytecode
    ((∃ c, assemble name ds = .ok c) ↔
      ∀ e ∈ es, ∀ label, e.label? = some label → e.Resolves bound label) ∧
    (∀ err, assemble name ds = .error err ↔
      ∃ before e after label, es = before ++ e :: after ∧ e.label? = some label ∧
        (∀ e' ∈ before, ∀ label', e'.label? = some label' → e'.Resolves bound label') ∧
        e.Offends bound label err) ∧
    ∀ c, assemble name ds = .ok c →
      (∀ e ∈ es, ∀ label target, e.label? = some label → (label, target) ∈ bound →
        target ≤ c.bytecode.size ∧
        c.decode e.offset =
          if target < c.bytecode.size then
            .ok { offset := e.offset, next := e.next, byte := e.op.toByte, opcode := some e.op
                  operand := .jump target, arg := e.encoded target }
          else .error ⟨e.offset, .jumpOutOfRange target⟩) ∧
      c.bytecode.size = written.size ∧
      ∀ k, (∀ e ∈ es, e.label? ≠ none → k ≠ e.offset + 1 ∧ k ≠ e.offset + 2) →
        c.bytecode[k]? = written[k]? := by
  intro es bound written
  refine ⟨exists_assemble_iff h, assemble_error_iff h, ?_⟩
  intro c hc
  obtain ⟨-, hpatched, -⟩ := Assembler.build_ok hc
  have hsize : c.bytecode.size = written.size := Assembler.size_patchAll hpatched
  refine ⟨?_, hsize, ?_⟩
  · intro e he label target hlabel hbound
    exact ⟨hsize ▸ Assembler.bindings_le label target hbound, decode_jump hc he hlabel hbound⟩
  · intro k hk
    refine Assembler.getElem?_patchAll hpatched ?_
    intro p hp htouch
    rw [patches_of_accepted h] at hp
    obtain ⟨e, he, hpatch⟩ := List.mem_filterMap.mp hp
    obtain ⟨label, hlabel, rfl⟩ := Option.map_eq_some_iff.mp hpatch
    obtain ⟨hlow, hhigh⟩ := hk e he (by simp [hlabel])
    exact htouch.elim hlow hhigh

/-- A jump forward to the end of the stream, with one back to its start; and a relative jump back,
which is met before a jump to a label that is not bound. -/
theorem jump_to_end_leaves_stream :
    let loop : List Directive :=
      [.newLabel, .newLabel, .bind 0, .jump .jumpForward 1, .jump .jumpAbsolute 0, .bind 1]
    let back : List Directive :=
      [.newLabel, .bind 0, .op .nop, .jump .jumpForward 0, .jump .jumpAbsolute 7]
    (Assembler.run { name := "f" } loop).error = none ∧
    (∃ c, assemble "f" loop = .ok c ∧ c.decode 0 = .error ⟨0, .jumpOutOfRange 6⟩ ∧
      ∃ i, c.decode 3 = .ok i ∧ i.operand = .jump 0) ∧
    (Assembler.run { name := "f" } back).error = none ∧
    assemble "f" back = .error (.backwardRelativeJump 1) := by
  intro loop back
  have hloop : (Assembler.run { name := "f" } loop).error = none := by cbv
  have hback : (Assembler.run { name := "f" } back).error = none := by cbv
  have hassemble : assemble "f" loop = .ok
      ⟨"f", #[110, 3, 0, 113, 0, 0], #[], #[], #[], #[], #[], 0, 0, 0, 0⟩ := by
    cbv
  have hes : Assembler.emissions { name := "f" } loop =
      [⟨.jump .jumpForward 1, .jumpForward, none, 0, 3⟩,
        ⟨.jump .jumpAbsolute 0, .jumpAbsolute, none, 3, 6⟩] := by
    cbv
  have hbound : Assembler.bindings { name := "f" } loop = [(0, 0), (1, 6)] := by cbv
  obtain ⟨-, -, hstream⟩ := labels_resolve_exactly hloop
  obtain ⟨hjumps, -⟩ := hstream _ hassemble
  have hend := (hjumps ⟨.jump .jumpForward 1, .jumpForward, none, 0, 3⟩ (by simp [hes]) 1 6 rfl
    (by simp [hbound])).2
  have hstart := (hjumps ⟨.jump .jumpAbsolute 0, .jumpAbsolute, none, 3, 6⟩ (by simp [hes]) 0 0 rfl
    (by simp [hbound])).2
  refine ⟨hloop, ⟨_, hassemble, hend, _, hstart, rfl⟩, hback, ?_⟩
  obtain ⟨-, herror, -⟩ := labels_resolve_exactly hback
  refine (herror _).mpr ⟨[⟨.op .nop, .nop, some 0, 0, 1⟩],
    ⟨.jump .jumpForward 0, .jumpForward, none, 1, 4⟩,
    [⟨.jump .jumpAbsolute 7, .jumpAbsolute, none, 4, 7⟩], 0, by cbv, rfl, ?_, ?_⟩
  · intro e he label hlabel
    cases List.mem_singleton.mp he
    cases hlabel
  · have hmem : (0, 0) ∈ Assembler.bindings { name := "f" } back := by
      have hbindings : Assembler.bindings { name := "f" } back = [(0, 0)] := by cbv
      simp [hbindings]
    exact .backward hmem rfl (by decide)

end StackVM
