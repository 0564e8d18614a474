/-
Parameters from directives to signatures. Parameters are declared kind by kind, between directives
that write instructions and intern locals; a code object only keeps the table of its fast names and
how many of them are parameters of each kind. What a signature reads off this table is what was
declared.

* `Directive.positional`, `Directive.kwonly`, `Directive.varargsName`,
  `Directive.varkeywordsName`: the parameters that a directive declares, by kind;
  `Directive.params`: those of all directives;
* `Directive.furtherLocals`: the locals that are no parameters, in the order of their first use;
* `Assembler.Lays`: the fast names are the parameters and after them the further locals;
* `Assembler.Lays.apply`, `Assembler.lays_run`: **one directive**, and all of them;
* `signature_recovers_parameters`: **what a signature reads**.
-/
import Mathlib
import StackVM.Call.Signature
import StackVM.Proofs.Tables

namespace StackVM

namespace Directive

/-! ### Declarations -/

/-- The positional parameters that a directive declares. -/
def positional : Directive → List String
  | .args names => names
  | _ => []

/-- The keyword-only parameters that a directive declares. -/
def kwonly : Directive → List String
  | .kwonlyArgs names => names
  | _ => []

/-- The parameter for further positional arguments that a directive declares. -/
def varargsName : Directive → List String
  | .varargs s => [s]
  | _ => []

/-- The parameter for further keywords that a directive declares. -/
def varkeywordsName : Directive → List String
  | .varkeywords s => [s]
  | _ => []

/-- The fast local that a directive uses. -/
def localName : Directive → List String
  | .local _ s => [s]
  | _ => []

variable (ds : List Directive)

/-- The parameters that directives declare, kind by kind. -/
def params : List String :=
  ds.flatMap positional ++ ds.flatMap kwonly ++ ds.flatMap varargsName ++ ds.flatMap varkeywordsName

/-- The locals that directives use and that are no parameters, each at its first use. -/
def furtherLocals : List String :=
  ((ds.flatMap localName).filter (· ∉ params ds)).eraseDups

variable {ds} {d : Directive} {s : String}

lemma mem_furtherLocals : s ∈ furtherLocals ds ↔ s ∈ ds.flatMap localName ∧ s ∉ params ds := by
  simp [furtherLocals, List.mem_eraseDups]

/-- New parameters leave no further locals where there were none. -/
lemma furtherLocals_snoc_of_nil {names : List String} (hnone : furtherLocals ds = [])
    (hparams : params (ds ++ [d]) = params ds ++ names) (hlocal : d.localName = []) :
    furtherLocals (ds ++ [d]) = [] := by
  rw [List.eq_nil_iff_forall_not_mem] at hnone ⊢
  intro s hs
  rw [mem_furtherLocals, List.flatMap_append, hparams] at hs
  refine hnone s (mem_furtherLocals.mpr ⟨?_, fun hmem => hs.2 (List.mem_append_left _ hmem)⟩)
  simpa [hlocal] using hs.1

/-- A local comes last, unless it is a parameter or has been used before. -/
lemma furtherLocals_snoc_local (op : Opcode) :
    furtherLocals (ds ++ [.local op s]) =
      if s ∈ params ds ++ furtherLocals ds then furtherLocals ds else furtherLocals ds ++ [s] := by
  have hparams : params (ds ++ [.local op s]) = params ds := by
    simp [params, positional, kwonly, varargsName, varkeywordsName]
  have hused : (ds ++ [Directive.local op s]).flatMap localName = ds.flatMap localName ++ [s] := by
    simp [localName]
  rw [furtherLocals, hparams, hused, List.filter_append, List.eraseDups_append, ← furtherLocals]
  by_cases hs : s ∈ params ds
  · simp [hs]
  · by_cases hmem : s ∈ furtherLocals ds
    · have hearlier := List.mem_flatMap.mp (mem_furtherLocals.mp hmem).1
      simp [hs, hmem, List.removeAll, hearlier]
    · have hnew : ¬ ∃ d ∈ ds, s ∈ d.localName := fun h =>
        hmem (mem_furtherLocals.mpr ⟨List.mem_flatMap.mpr h, hs⟩)
      simp [hs, hmem, List.removeAll, hnew, List.eraseDups_cons]

end Directive

namespace Assembler

open Directive

variable {a b : Assembler} {ds : List Directive} {d : Directive} {names : List String}

/-! ### What directives keep -/

/-- The state `b` has the fast names of the state `a` and the counts of its parameters. -/
structure SameParams (a b : Assembler) : Prop where
  varnames : b.varnames = a.varnames
  argCount : b.argCount = a.argCount
  kwonlyArgCount : b.kwonlyArgCount = a.kwonlyArgCount
  hasVarargs : b.hasVarargs = a.hasVarargs
  hasVarkeywords : b.hasVarkeywords = a.hasVarkeywords

lemma sameParams_emit (a : Assembler) (op : Opcode) : a.SameParams (a.emit op) := by
  rw [emit]
  split <;> exact ⟨rfl, rfl, rfl, rfl, rfl⟩

lemma sameParams_emitArg (a : Assembler) (op : Opcode) (n : UInt32) :
    a.SameParams (a.emitArg op n) := by
  rw [emitArg]
  split
  · exact ⟨rfl, rfl, rfl, rfl, rfl⟩
  · split <;> exact ⟨rfl, rfl, rfl, rfl, rfl⟩

lemma sameParams_emitDeref (a : Assembler) (op : Opcode) (s : String) :
    a.SameParams (a.emitDeref op s) := by
  rw [emitDeref]
  split
  · exact a.sameParams_emitArg op _
  · exact ⟨rfl, rfl, rfl, rfl, rfl⟩

lemma sameParams_emitJump (a : Assembler) (op : Opcode) (label : Nat) :
    a.SameParams (a.emitJump op label) := by
  rw [emitJump]
  split <;> exact ⟨rfl, rfl, rfl, rfl, rfl⟩

lemma sameParams_bindLabel (a : Assembler) (label : Nat) : a.SameParams (a.bindLabel label) := by
  rw [bindLabel]
  split <;> exact ⟨rfl, rfl, rfl, rfl, rfl⟩

/-- A name is in a table after it is interned, and comes last if it was not there. -/
lemma toList_intern (table : Array String) (s : String) :
    (intern table s).2.toList = if s ∈ table.toList then table.toList else table.toList ++ [s] := by
  rw [intern]
  split
  next i hi =>
    obtain ⟨hlt, hs, -⟩ := Array.findIdx?_eq_some_iff_getElem.mp hi
    obtain rfl : table[i] = s := by simpa using hs
    rw [if_pos (Array.mem_toList_iff.mpr (Array.getElem_mem hlt))]
  next hi =>
    rw [Array.findIdx?_eq_none_iff] at hi
    have hs : s ∉ table.toList := fun hs => by simpa using hi s (Array.mem_toList_iff.mp hs)
    rw [if_neg hs, Array.toList_push]

/-! ### Declarations that are accepted -/

lemma failIf_of_error {cond : Bool} {e : BuildError} (h : (a.failIf cond e).error = none) :
    cond = false ∧ a.failIf cond e = a := by
  cases cond with
  | false => exact ⟨rfl, rfl⟩
  | true => exact absurd h (a.error_fail_ne e)

/-- Parameters are accepted while there are no further locals. -/
lemma pushParams_of_error (h : (a.pushParams names).error = none) :
    a.varnames.size = a.argCount + a.kwonlyArgCount + a.starCount ∧
      a.pushParams names = { a with varnames := a.varnames ++ names.toArray } := by
  obtain ⟨hsize, heq⟩ := failIf_of_error (show (a.failIf _ _).error = none from h)
  refine ⟨by simpa using hsize, ?_⟩
  rw [pushParams, heq]

/-- A declaration is accepted if its kind is in order and there are no further locals. -/
lemma declare_of_error {cond : Bool} {e : BuildError}
    (h : ((a.failIf cond e).pushParams names).error = none) :
    cond = false ∧ a.varnames.size = a.argCount + a.kwonlyArgCount + a.starCount ∧
      (a.failIf cond e).pushParams names =
        { a with varnames := a.varnames ++ names.toArray } := by
  have herror : (a.failIf cond e).error = none := by
    exact ((a.failIf cond e).declares_pushParams names).toExtends.error h
  obtain ⟨hcond, heq⟩ := failIf_of_error herror
  rw [heq] at h ⊢
  exact ⟨hcond, pushParams_of_error h⟩

/-! ### Layout -/

/-- The counts are those of the declared parameters, and the fast names are the parameters and
after them the further locals. -/
structure Lays (a : Assembler) (ds : List Directive) : Prop where
  argCount : a.argCount = (ds.flatMap positional).length
  kwonlyArgCount : a.kwonlyArgCount = (ds.flatMap kwonly).length
  hasVarargs : a.hasVarargs.toNat = (ds.flatMap varargsName).length
  hasVarkeywords : a.hasVarkeywords.toNat = (ds.flatMap varkeywordsName).length
  varnames : a.varnames.toList = params ds ++ furtherLocals ds

namespace Lays

lemma length_params (ha : a.Lays ds) :
    (params ds).length = a.argCount + a.kwonlyArgCount + a.starCount := by
  simp only [params, List.length_append, starCount, ha.argCount, ha.kwonlyArgCount, ha.hasVarargs,
    ha.hasVarkeywords]
  omega

/-- What is left to say after a directive once the counts are right. -/
lemma of_counts (ha : a.Lays ds) (hargs : b.argCount = a.argCount + d.positional.length)
    (hkwonly : b.kwonlyArgCount = a.kwonlyArgCount + d.kwonly.length)
    (hvarargs : b.hasVarargs.toNat = a.hasVarargs.toNat + d.varargsName.length)
    (hvarkeywords : b.hasVarkeywords.toNat = a.hasVarkeywords.toNat + d.varkeywordsName.length)
    (hvarnames : b.varnames.toList = params (ds ++ [d]) ++ furtherLocals (ds ++ [d])) :
    b.Lays (ds ++ [d]) := by
  have hlength : ∀ kind : Directive → List String, ((ds ++ [d]).flatMap kind).length =
      (ds.flatMap kind).length + (kind d).length := by
    intro kind
    rw [List.flatMap_append, List.length_append, List.flatMap_singleton]
  constructor
  case argCount => rw [hargs, ha.argCount, hlength]
  case kwonlyArgCount => rw [hkwonly, ha.kwonlyArgCount, hlength]
  case hasVarargs => rw [hvarargs, ha.hasVarargs, hlength]
  case hasVarkeywords => rw [hvarkeywords, ha.hasVarkeywords, hlength]
  case varnames => exact hvarnames

/-- **A directive that declares nothing** and uses no local. -/
lemma of_sameParams (ha : a.Lays ds) (h : a.SameParams b) (hpositional : d.positional = [])
    (hkwonly : d.kwonly = []) (hvarargs : d.varargsName = [])
    (hvarkeywords : d.varkeywordsName = []) (hlocal : d.localName = []) : b.Lays (ds ++ [d]) := by
  have hparams : params (ds ++ [d]) = params ds := by
    simp [params, hpositional, hkwonly, hvarargs, hvarkeywords]
  refine ha.of_counts ?_ ?_ ?_ ?_ ?_
  · rw [h.argCount, hpositional, List.length_nil, Nat.add_zero]
  · rw [h.kwonlyArgCount, hkwonly, List.length_nil, Nat.add_zero]
  · rw [h.hasVarargs, hvarargs, List.length_nil, Nat.add_zero]
  · rw [h.hasVarkeywords, hvarkeywords, List.length_nil, Nat.add_zero]
  · simp [h.varnames, ha.varnames, hparams, furtherLocals, hlocal]

/-- The fast names after **a declaration** of parameters that come last. -/
lemma varnames_declare (ha : a.Lays ds)
    (hsize : a.varnames.size = a.argCount + a.kwonlyArgCount + a.starCount)
    (hparams : params (ds ++ [d]) = params ds ++ names) (hlocal : d.localName = []) :
    (a.varnames ++ names.toArray).toList = params (ds ++ [d]) ++ furtherLocals (ds ++ [d]) := by
  have hnone : furtherLocals ds = [] := by
    have hlength := congrArg List.length ha.varnames
    rw [List.length_append, ha.length_params, Array.length_toList] at hlength
    exact List.eq_nil_of_length_eq_zero (by omega)
  rw [furtherLocals_snoc_of_nil hnone hparams hlocal, hparams, Array.toList_append, ha.varnames,
    hnone, List.append_nil, List.append_nil]

/-- The fast names after **a use of a local**. -/
lemma varnames_local (ha : a.Lays ds) (op : Opcode) (s : String) :
    (intern a.varnames s).2.toList =
      params (ds ++ [.local op s]) ++ furtherLocals (ds ++ [.local op s]) := by
  have hparams : params (ds ++ [.local op s]) = params ds := by
    simp [params, positional, kwonly, varargsName, varkeywordsName]
  rw [toList_intern, hparams, furtherLocals_snoc_local, ha.varnames]
  split
  · rfl
  · rw [List.append_assoc]

/-- Kinds of which no parameter is counted have none. -/
lemma collecting_eq_nil (ha : a.Lays ds) (h : a.starCount = 0) :
    ds.flatMap varargsName = [] ∧ ds.flatMap varkeywordsName = [] := by
  rw [starCount, ha.hasVarargs, ha.hasVarkeywords] at h
  exact ⟨List.eq_nil_of_length_eq_zero (by omega), List.eq_nil_of_length_eq_zero (by omega)⟩

lemma kwonly_eq_nil (ha : a.Lays ds) (h : a.kwonlyArgCount = 0) : ds.flatMap kwonly = [] :=
  List.eq_nil_of_length_eq_zero (ha.kwonlyArgCount ▸ h)

/-- **One directive** that is accepted. -/
lemma apply (ha : a.Lays ds) (h : (a.apply d).error = none) : (a.apply d).Lays (ds ++ [d]) := by
  cases d with
  | args names =>
      obtain ⟨hcond, hsize, heq⟩ := declare_of_error
        (show ((a.failIf _ _).pushParams names).error = none from h)
      simp only [Bool.or_eq_false_iff, decide_eq_false_iff_not, Nat.not_lt, Nat.le_zero] at hcond
      obtain ⟨hvarargs, hvarkeywords⟩ := ha.collecting_eq_nil hcond.2
      have hparams : params (ds ++ [.args names]) = params ds ++ names := by
        simp [params, positional, kwonly, varargsName, varkeywordsName, ha.kwonly_eq_nil hcond.1,
          hvarargs, hvarkeywords]
      rw [Assembler.apply, withArgs, heq]
      exact ha.of_counts rfl rfl rfl rfl (ha.varnames_declare hsize hparams rfl)
  | kwonlyArgs names =>
      obtain ⟨hcond, hsize, heq⟩ := declare_of_error
        (show ((a.failIf _ _).pushParams names).error = none from h)
      simp only [decide_eq_false_iff_not, Nat.not_lt, Nat.le_zero] at hcond
      obtain ⟨hvarargs, hvarkeywords⟩ := ha.collecting_eq_nil hcond
      have hparams : params (ds ++ [.kwonlyArgs names]) = params ds ++ names := by
        simp [params, positional, kwonly, varargsName, varkeywordsName, hvarargs, hvarkeywords]
      rw [Assembler.apply, withKwonlyArgs, heq]
      exact ha.of_counts rfl rfl rfl rfl (ha.varnames_declare hsize hparams rfl)
  | varargs s =>
      obtain ⟨hcond, hsize, heq⟩ := declare_of_error
        (show ((a.failIf _ _).pushParams [s]).error = none from h)
      simp only [decide_eq_false_iff_not, Nat.not_lt, Nat.le_zero] at hcond
      obtain ⟨hvarargs, hvarkeywords⟩ := ha.collecting_eq_nil hcond
      have hparams : params (ds ++ [.varargs s]) = params ds ++ [s] := by
        simp [params, positional, kwonly, varargsName, varkeywordsName, hvarargs, hvarkeywords]
      have hfirst : a.hasVarargs.toNat = 0 := by rw [ha.hasVarargs, hvarargs, List.length_nil]
      rw [Assembler.apply, withVarargs, heq]
      refine ha.of_counts rfl rfl ?_ rfl (ha.varnames_declare hsize hparams rfl)
      rw [hfirst]
      rfl
  | varkeywords s =>
      obtain ⟨hcond, hsize, heq⟩ := declare_of_error
        (show ((a.failIf _ _).pushParams [s]).error = none from h)
      have hvarkeywords : ds.flatMap varkeywordsName = [] :=
        List.eq_nil_of_length_eq_zero (by rw [← ha.hasVarkeywords, hcond, Bool.toNat_false])
      have hparams : params (ds ++ [.varkeywords s]) = params ds ++ [s] := by
        simp [params, positional, kwonly, varargsName, varkeywordsName, hvarkeywords]
      rw [Assembler.apply, withVarkeywords, heq]
      refine ha.of_counts rfl rfl rfl ?_ (ha.varnames_declare hsize hparams rfl)
      rw [hcond]
      rfl
  | «local» op s =>
      have hsame := sameParams_emitArg { a with varnames := (intern a.varnames s).2 } op
        (indexArg (intern a.varnames s).1)
      refine ha.of_counts hsame.argCount hsame.kwonlyArgCount (congrArg Bool.toNat hsame.hasVarargs)
        (congrArg Bool.toNat hsame.hasVarkeywords) ?_
      exact (congrArg Array.toList hsame.varnames).trans (ha.varnames_local op s)
  | op op => exact ha.of_sameParams (a.sameParams_emit op) rfl rfl rfl rfl rfl
  | deref op s => exact ha.of_sameParams (a.sameParams_emitDeref op s) rfl rfl rfl rfl rfl
  | jump op label => exact ha.of_sameParams (a.sameParams_emitJump op label) rfl rfl rfl rfl rfl
  | bind label => exact ha.of_sameParams (a.sameParams_bindLabel label) rfl rfl rfl rfl rfl
  | newLabel => exact ha.of_sameParams ⟨rfl, rfl, rfl, rfl, rfl⟩ rfl rfl rfl rfl rfl
  | cellvars names => exact ha.of_sameParams ⟨rfl, rfl, rfl, rfl, rfl⟩ rfl rfl rfl rfl rfl
  | freevars names => exact ha.of_sameParams ⟨rfl, rfl, rfl, rfl, rfl⟩ rfl rfl rfl rfl rfl
  | const k =>
      have hsame := sameParams_emitArg { a with consts := (internConst a.consts k).2 } .loadConst
        (indexArg (internConst a.consts k).1)
      exact ha.of_sameParams ⟨hsame.1, hsame.2, hsame.3, hsame.4, hsame.5⟩ rfl rfl rfl rfl rfl
  | name op s =>
      have hsame := sameParams_emitArg { a with names := (intern a.names s).2 } op
        (indexArg (intern a.names s).1)
      exact ha.of_sameParams ⟨hsame.1, hsame.2, hsame.3, hsame.4, hsame.5⟩ rfl rfl rfl rfl rfl
  | _ => exact ha.of_sameParams (a.sameParams_emitArg _ _) rfl rfl rfl rfl rfl

end Lays

/-- **All directives**, if they are accepted. -/
lemma lays_run {name : String} (h : (run { name } ds).error = none) :
    (run { name } ds).Lays ds := by
  induction ds using List.reverseRecOn with
  | nil => exact ⟨rfl, rfl, rfl, rfl, rfl⟩
  | append_singleton ds d ih =>
      have hrun : run { name } (ds ++ [d]) = (run { name } ds).apply d := by
        rw [run, List.foldl_append]
        rfl
      rw [hrun] at h ⊢
      exact (ih ((extends_apply _ d).error h)).apply h

end Assembler

/-! ### Signatures -/

namespace Directive

lemma mem_varargsName_iff {ds : List Directive} {s : String} :
    s ∈ ds.flatMap varargsName ↔ .varargs s ∈ ds := by
  rw [List.mem_flatMap]
  constructor
  · rintro ⟨d, hd, hs⟩
    cases d with
    | varargs s' =>
        obtain rfl := List.mem_singleton.mp hs
        exact hd
    | _ => cases hs
  · intro hd
    exact ⟨_, hd, List.mem_singleton_self s⟩

lemma mem_varkeywordsName_iff {ds : List Directive} {s : String} :
    s ∈ ds.flatMap varkeywordsName ↔ .varkeywords s ∈ ds := by
  rw [List.mem_flatMap]
  constructor
  · rintro ⟨d, hd, hs⟩
    cases d with
    | varkeywords s' =>
        obtain rfl := List.mem_singleton.mp hs
        exact hd
    | _ => cases hs
  · intro hd
    exact ⟨_, hd, List.mem_singleton_self s⟩

end Directive

namespace Code

variable {c : Code} {before names after : List String}

/-- Names are found where they stand in the table. -/
lemma paramNames_eq (h : c.varnames.toList = before ++ names ++ after) :
    c.paramNames before.length names.length = names := by
  have hsize : before.length + names.length ≤ c.varnames.size := by
    rw [← Array.length_toList, h]
    simp
  rw [paramNames, if_pos hsize, h]
  simp

/-- The name of a collecting parameter is found where it stands, if there is one. -/
lemma collecting_eq_some_iff {flag : Bool} {s : String}
    (h : c.varnames.toList = before ++ names ++ after) (hflag : flag.toNat = names.length) :
    (if flag then c.varnames[before.length]? else none) = some s ↔ s ∈ names := by
  cases flag with
  | false =>
      obtain rfl : names = [] := List.eq_nil_of_length_eq_zero hflag.symm
      simp
  | true =>
      obtain ⟨x, rfl⟩ := List.length_eq_one_iff.mp hflag.symm
      rw [if_pos rfl, ← Array.getElem?_toList, h]
      simp [eq_comm]

end Code

namespace Assembler

variable {a : Assembler} {bytes : Array UInt8}

lemma hasVarargs_toCode : (a.toCode bytes).hasVarargs = a.hasVarargs := by
  show (a.flags &&& Code.varargsFlag == Code.varargsFlag) = a.hasVarargs
  rw [flags]
  cases a.hasVarargs <;> cases a.hasVarkeywords <;> rfl

lemma hasVarkeywords_toCode : (a.toCode bytes).hasVarkeywords = a.hasVarkeywords := by
  show (a.flags &&& Code.varkeywordsFlag == Code.varkeywordsFlag) = a.hasVarkeywords
  rw [flags]
  cases a.hasVarargs <;> cases a.hasVarkeywords <;> rfl

end Assembler

open Directive

/-- A code object counts the declared parameters, and its fast names are the parameters and after
them the further locals. -/
structure Code.Lays (c : Code) (ds : List Directive) : Prop where
  argCount : c.argCount.toNat = (ds.flatMap positional).length
  kwonlyArgCount : c.kwonlyArgCount.toNat = (ds.flatMap kwonly).length
  hasVarargs : c.hasVarargs.toNat = (ds.flatMap varargsName).length
  hasVarkeywords : c.hasVarkeywords.toNat = (ds.flatMap varkeywordsName).length
  varnames : c.varnames.toList = params ds ++ furtherLocals ds

/-- The counts of a code object have 64 bits, which is enough for a table of fewer than 2 ^ 64
names. -/
lemma lays_of_assemble {name : String} {ds : List Directive} {c : Code}
    (h : assemble name ds = .ok c) (hsize : c.varnames.size < UInt64.size) : c.Lays ds := by
  obtain ⟨herror, -, hcode⟩ := Assembler.build_ok h
  have ha := Assembler.lays_run herror
  have hvarnames : c.varnames.toList = params ds ++ furtherLocals ds := by
    rw [hcode]
    exact ha.varnames
  have hlength : (ds.flatMap positional).length + (ds.flatMap kwonly).length < UInt64.size := by
    rw [← Array.length_toList, hvarnames] at hsize
    simp only [params, List.length_append] at hsize
    omega
  constructor
  case argCount =>
    rw [hcode, ← ha.argCount]
    exact UInt64.toNat_ofNat_of_lt' (by rw [ha.argCount]; omega)
  case kwonlyArgCount =>
    rw [hcode, ← ha.kwonlyArgCount]
    exact UInt64.toNat_ofNat_of_lt' (by rw [ha.kwonlyArgCount]; omega)
  case hasVarargs => rw [hcode, Assembler.hasVarargs_toCode, ha.hasVarargs]
  case hasVarkeywords => rw [hcode, Assembler.hasVarkeywords_toCode, ha.hasVarkeywords]
  case varnames => exact hvarnames

namespace Code.Lays

variable {c : Code} {ds : List Directive}

lemma totalArgCount_eq (hc : c.Lays ds) : c.totalArgCount = (params ds).length := by
  rw [totalArgCount, hc.argCount, hc.kwonlyArgCount, hc.hasVarargs, hc.hasVarkeywords]
  simp only [params, List.length_append]

lemma positional_eq (hc : c.Lays ds) : c.signature.positional = ds.flatMap positional := by
  have hnames : c.varnames.toList = [] ++ ds.flatMap positional ++ (ds.flatMap kwonly ++
      ds.flatMap varargsName ++ ds.flatMap varkeywordsName ++ furtherLocals ds) := by
    simp [hc.varnames, params]
  rw [signature, hc.argCount]
  exact paramNames_eq hnames

lemma kwonly_eq (hc : c.Lays ds) : c.signature.kwonly = ds.flatMap kwonly := by
  have hnames : c.varnames.toList = ds.flatMap positional ++ ds.flatMap kwonly ++
      (ds.flatMap varargsName ++ ds.flatMap varkeywordsName ++ furtherLocals ds) := by
    simp [hc.varnames, params]
  rw [signature, hc.argCount, hc.kwonlyArgCount]
  exact paramNames_eq hnames

lemma varargs_eq_some_iff (hc : c.Lays ds) {s : String} :
    c.signature.varargs = some s ↔ s ∈ ds.flatMap varargsName := by
  have hnames : c.varnames.toList = (ds.flatMap positional ++ ds.flatMap kwonly) ++
      ds.flatMap varargsName ++ (ds.flatMap varkeywordsName ++ furtherLocals ds) := by
    simp [hc.varnames, params]
  rw [signature, hc.argCount, hc.kwonlyArgCount, ← List.length_append]
  exact collecting_eq_some_iff hnames hc.hasVarargs

lemma varkeywords_eq_some_iff (hc : c.Lays ds) {s : String} :
    c.signature.varkeywords = some s ↔ s ∈ ds.flatMap varkeywordsName := by
  have hnames : c.varnames.toList = (ds.flatMap positional ++ ds.flatMap kwonly ++
      ds.flatMap varargsName) ++ ds.flatMap varkeywordsName ++ furtherLocals ds := hc.varnames
  rw [signature, hc.argCount, hc.kwonlyArgCount, hc.hasVarargs, ← List.length_append,
    ← List.length_append]
  exact collecting_eq_some_iff hnames hc.hasVarkeywords

end Code.Lays

/-- **Signatures recover the declared parameters.** Let directives give the code object `c`, with
parameters declared and locals used in whatever order is accepted. The fast names of `c` are the
parameters, kind by kind and each kind in the order of its declarations, and after all of them the
other locals. The signature of `c` reads each kind back as it was declared.

A table has fewer than 2 ^ 64 names, as its counts have 64 bits. -/
theorem signature_recovers_parameters {name : String} {ds : List Directive} {c : Code}
    (h : assemble name ds = .ok c) (hsize : c.varnames.size < UInt64.size) :
    c.totalArgCount = (params ds).length ∧ c.totalArgCount ≤ c.varnames.size ∧
      c.varnames.toList = params ds ++ furtherLocals ds ∧
      c.signature.positional = ds.flatMap positional ∧
      c.signature.kwonly = ds.flatMap kwonly ∧
      (∀ s, c.signature.varargs = some s ↔ .varargs s ∈ ds) ∧
      ∀ s, c.signature.varkeywords = some s ↔ .varkeywords s ∈ ds := by
  have hc := lays_of_assemble h hsize
  have hle : (params ds).length ≤ c.varnames.size := by
    rw [← Array.length_toList, hc.varnames, List.length_append]
    omega
  refine ⟨hc.totalArgCount_eq, hc.totalArgCount_eq ▸ hle, hc.varnames, hc.positional_eq,
    hc.kwonly_eq, ?_, ?_⟩
  · intro s
    rw [hc.varargs_eq_some_iff, mem_varargsName_iff]
  · intro s
    rw [hc.varkeywords_eq_some_iff, mem_varkeywordsName_iff]

/-- Parameters of all kinds, positional ones by two declarations and around an empty one, between
instructions on parameters and before those on another local. -/
theorem signature_recovers_parameters_of_each_kind :
    let ds : List Directive := [.args ["a"], .local (.load .fast) "a", .kwonlyArgs [],
      .args ["b"], .kwonlyArgs ["k"], .varargs "rest", .local (.store .fast) "k",
      .varkeywords "named", .local (.store .fast) "x", .local (.load .fast) "b",
      .local (.load .fast) "x"]
    ∃ c, assemble "f" ds = .ok c ∧ c.varnames.size < UInt64.size ∧ c.totalArgCount = 5 ∧
      c.signature.positional = ["a", "b"] ∧ c.signature.kwonly = ["k"] ∧
      c.signature.varargs = some "rest" ∧ c.signature.varkeywords = some "named" ∧
      c.varnames.toList = ["a", "b", "k", "rest", "named", "x"] := by
  intro ds
  have hassemble : assemble "f" ds = .ok ⟨"f", #[124, 0, 0, 125, 2, 0, 125, 5, 0, 124, 1, 0, 124,
      5, 0], #[], #[], #["a", "b", "k", "rest", "named", "x"], #[], #[], 2, 1, 12, 2⟩ := by
    cbv
  obtain ⟨htotal, -, -, hpositional, hkwonly, hvarargs, hvarkeywords⟩ :=
    signature_recovers_parameters hassemble (by decide)
  refine ⟨_, hassemble, by decide, htotal, hpositional, hkwonly, ?_, ?_, rfl⟩
  · exact (hvarargs "rest").mpr (by simp [ds])
  · exact (hvarkeywords "named").mpr (by simp [ds])

end StackVM
