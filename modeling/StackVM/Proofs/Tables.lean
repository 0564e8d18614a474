/-
The tables of a code object that directives give. Constants are pooled one by one, and cells are
declared by name; an index into a table is fixed when its instruction is written, and the table
may still grow after that.

* `Directive.const?`, `Directive.cells`, `Directive.captured`: what a directive puts in a table;
* `Assembler.consts_apply`, `Assembler.cells_apply`, `Assembler.cells_run`: what is in them then;
* `Assembler.cellIndex`: the index of a variable when its instruction is written;
* `Code.cellName?_cellIndex`: the variable that has this index in the end;
* `deref_addresses_variable`: **the cell of an instruction**.
-/
import Mathlib
import StackVM.Proofs.RoundTrip

namespace StackVM

/-- The constant that a directive loads. -/
def Directive.const? : Directive → Option Const
  | .const k => some k
  | _ => none

/-- The locals for nested functions that a directive declares. -/
def Directive.cells : Directive → List String
  | .cellvars names => names
  | _ => []

/-- The variables of the enclosing function that a directive declares. -/
def Directive.captured : Directive → List String
  | .freevars names => names
  | _ => []

/-! ### Tables -/

namespace Assembler

variable {a b : Assembler} {s : String}

/-- The state `b` has the constants and the cells of the state `a`. -/
structure SameTables (a b : Assembler) : Prop where
  consts : b.consts = a.consts
  cellvars : b.cellvars = a.cellvars
  freevars : b.freevars = a.freevars

lemma sameTables_failIf (a : Assembler) (cond : Bool) (e : BuildError) :
    a.SameTables (a.failIf cond e) := by
  rw [failIf]
  split <;> exact ⟨rfl, rfl, rfl⟩

/-- The counts of parameters do not matter. -/
lemma SameTables.counted {argCount kwonlyArgCount : Nat} {hasVarargs hasVarkeywords : Bool}
    (h : a.SameTables b) :
    a.SameTables { b with argCount, kwonlyArgCount, hasVarargs, hasVarkeywords } :=
  ⟨h.consts, h.cellvars, h.freevars⟩

/-- Parameters are fast locals. -/
lemma sameTables_params (a : Assembler) (cond : Bool) (e : BuildError) (names : List String) :
    a.SameTables ((a.failIf cond e).pushParams names) := by
  have hfirst := a.sameTables_failIf cond e
  have hsecond := (a.failIf cond e).sameTables_failIf ((a.failIf cond e).varnames.size !=
    (a.failIf cond e).argCount + (a.failIf cond e).kwonlyArgCount + (a.failIf cond e).starCount)
    .paramsAfterLocals
  exact ⟨hsecond.consts.trans hfirst.consts, hsecond.cellvars.trans hfirst.cellvars,
    hsecond.freevars.trans hfirst.freevars⟩

lemma sameTables_emit (a : Assembler) (op : Opcode) : a.SameTables (a.emit op) := by
  rw [emit]
  split <;> exact ⟨rfl, rfl, rfl⟩

lemma sameTables_emitArg (a : Assembler) (op : Opcode) (n : UInt32) :
    a.SameTables (a.emitArg op n) := by
  rw [emitArg]
  split
  · exact ⟨rfl, rfl, rfl⟩
  · split <;> exact ⟨rfl, rfl, rfl⟩

lemma sameTables_emitDeref (a : Assembler) (op : Opcode) (s : String) :
    a.SameTables (a.emitDeref op s) := by
  rw [emitDeref]
  split
  · exact a.sameTables_emitArg op _
  · exact ⟨rfl, rfl, rfl⟩

lemma sameTables_emitJump (a : Assembler) (op : Opcode) (label : Nat) :
    a.SameTables (a.emitJump op label) := by
  rw [emitJump]
  split <;> exact ⟨rfl, rfl, rfl⟩

lemma sameTables_bindLabel (a : Assembler) (label : Nat) :
    a.SameTables (a.bindLabel label) := by
  rw [bindLabel]
  split <;> exact ⟨rfl, rfl, rfl⟩

/-- **Other directives** leave the constants and the cells alone. -/
lemma sameTables_apply {d : Directive} (hconst : d.const? = none) (hcells : d.cells = [])
    (hcaptured : d.captured = []) : a.SameTables (a.apply d) := by
  cases d with
  | const k => cases hconst
  | cellvars names =>
      obtain rfl : names = [] := hcells
      exact ⟨rfl, Array.append_empty, rfl⟩
  | freevars names =>
      obtain rfl : names = [] := hcaptured
      exact ⟨rfl, rfl, Array.append_empty⟩
  | op op => exact a.sameTables_emit op
  | deref op s => exact a.sameTables_emitDeref op s
  | jump op label => exact a.sameTables_emitJump op label
  | bind label => exact a.sameTables_bindLabel label
  | newLabel => exact ⟨rfl, rfl, rfl⟩
  | args names => exact (a.sameTables_params _ _ names).counted
  | kwonlyArgs names => exact (a.sameTables_params _ _ names).counted
  | varargs name => exact (a.sameTables_params _ _ [name]).counted
  | varkeywords name => exact (a.sameTables_params _ _ [name]).counted
  | name op s =>
      obtain ⟨h₁, h₂, h₃⟩ := sameTables_emitArg { a with names := (intern a.names s).2 } op
        (indexArg (intern a.names s).1)
      exact ⟨h₁, h₂, h₃⟩
  | «local» op s =>
      obtain ⟨h₁, h₂, h₃⟩ := sameTables_emitArg { a with varnames := (intern a.varnames s).2 } op
        (indexArg (intern a.varnames s).1)
      exact ⟨h₁, h₂, h₃⟩
  | _ => exact a.sameTables_emitArg _ _

/-- A directive that loads a constant puts it in the pool, and no other one does. -/
lemma consts_apply (a : Assembler) (d : Directive) :
    (a.apply d).consts = d.const?.elim a.consts fun k => (internConst a.consts k).2 := by
  cases d with
  | const k => exact (sameTables_emitArg _ _ _).consts
  | cellvars names => rfl
  | freevars names => rfl
  | _ => exact (sameTables_apply rfl rfl rfl).consts

/-- **One directive** adds the cells that it declares. -/
lemma cells_apply (a : Assembler) (d : Directive) :
    (a.apply d).cellvars.toList = a.cellvars.toList ++ d.cells ∧
      (a.apply d).freevars.toList = a.freevars.toList ++ d.captured := by
  have hkeeps : ∀ b : Assembler, b.cellvars = a.cellvars → b.freevars = a.freevars →
      b.cellvars.toList = a.cellvars.toList ++ [] ∧
        b.freevars.toList = a.freevars.toList ++ [] := by
    intro b hcellvars hfreevars
    simp [hcellvars, hfreevars]
  cases d with
  | const k =>
      have htables := sameTables_emitArg { a with consts := (internConst a.consts k).2 } .loadConst
        (indexArg (internConst a.consts k).1)
      exact hkeeps _ htables.cellvars htables.freevars
  | cellvars names => simp [apply, Directive.cells, Directive.captured]
  | freevars names => simp [apply, Directive.cells, Directive.captured]
  | _ =>
      exact hkeeps _ (sameTables_apply rfl rfl rfl).cellvars (sameTables_apply rfl rfl rfl).freevars

/-- **The cells after directives** are those that they declare, in order. -/
lemma cells_run (a : Assembler) (ds : List Directive) :
    (a.run ds).cellvars.toList = a.cellvars.toList ++ ds.flatMap Directive.cells ∧
      (a.run ds).freevars.toList = a.freevars.toList ++ ds.flatMap Directive.captured := by
  induction ds generalizing a with
  | nil => simp [run]
  | cons d ds ih =>
      obtain ⟨hcells, hcaptured⟩ := a.cells_apply d
      obtain ⟨ihcells, ihcaptured⟩ := ih (a.apply d)
      rw [List.flatMap_cons, List.flatMap_cons, ← List.append_assoc, ← List.append_assoc, ← hcells,
        ← hcaptured]
      exact ⟨ihcells, ihcaptured⟩

/-! ### Indices of cells -/

/-- The index of a variable when its instruction is written. -/
def cellIndex (cells captured : List String) (s : String) : Nat :=
  if s ∈ cells then cells.idxOf s else cells.length + captured.idxOf s

lemma findIdx?_beq (names : List String) (s : String) :
    names.findIdx? (· == s) = if s ∈ names then some (names.idxOf s) else none := by
  split
  next hmem =>
    have hlt := List.idxOf_lt_length_iff.mpr hmem
    exact List.findIdx?_eq_some_iff_findIdx_eq.mpr ⟨hlt, rfl⟩
  next hmem => simpa using fun x hx (he : x = s) => hmem (he ▸ hx)

/-- A variable has an index if it has been declared. -/
lemma cellIndex?_eq (a : Assembler) (s : String) :
    a.cellIndex? s = if s ∈ a.cellvars.toList ∨ s ∈ a.freevars.toList then
      some (cellIndex a.cellvars.toList a.freevars.toList s) else none := by
  obtain ⟨_, _, _, _, _, ⟨cellvars⟩, ⟨freevars⟩, _, _, _, _, _, _, _, _, _⟩ := a
  simp only [cellIndex?, List.findIdx?_toArray, findIdx?_beq, cellIndex, List.size_toArray]
  by_cases hcell : s ∈ cellvars
  · simp [hcell]
  · by_cases hcaptured : s ∈ freevars <;> simp [hcell, hcaptured]

/-- Cells that are declared late move the captured variables. What is then in the place of one of
them is the same name if none came late, or if that very name did in that place. -/
lemma getElem?_late_append_iff {late captured : List String} (hs : s ∈ captured) :
    (late ++ captured)[captured.idxOf s]? = some s ↔
      late = [] ∨ late[captured.idxOf s]? = some s := by
  have hlt := List.idxOf_lt_length_iff.mpr hs
  have hself : captured[captured.idxOf s]? = some s := by
    rw [List.getElem?_eq_getElem hlt, List.getElem_idxOf hlt]
  cases late with
  | nil => simp [hself]
  | cons x late =>
      by_cases hshort : captured.idxOf s < (x :: late).length
      · rw [List.getElem?_append_left hshort]
        simp
      · -- an earlier captured variable is in the place of `s`, which is the first of its name
        rw [List.getElem?_append_right (not_lt.mp hshort), List.getElem?_eq_none (not_lt.mp hshort)]
        simp only [List.length_cons] at hshort ⊢
        have hearlier : captured.idxOf s - (late.length + 1) < captured.idxOf s := by omega
        have hne := List.not_of_lt_findIdx hearlier
        rw [List.getElem?_eq_getElem (by omega)]
        simpa using hne

end Assembler

namespace Code

/-- The cells are the captured locals and then the captured variables. -/
lemma cellName?_eq (c : Code) (index : Nat) :
    c.cellName? index = (c.cellvars.toList ++ c.freevars.toList)[index]? := by
  rw [cellName?]
  split
  next hlt => rw [List.getElem?_append_left (by simpa using hlt), Array.getElem?_toList]
  next hge =>
    rw [List.getElem?_append_right (by simpa using hge), Array.length_toList, Array.getElem?_toList]

/-- **The variable at the index** that an instruction has been written with. -/
lemma cellName?_cellIndex {c : Code} {s : String} {cells captured late lateCaptured : List String}
    (hcells : c.cellvars.toList = cells ++ late)
    (hcaptured : c.freevars.toList = captured ++ lateCaptured) (hs : s ∈ cells ∨ s ∈ captured) :
    Assembler.cellIndex cells captured s < c.cellCount ∧
    c.cellName? (Assembler.cellIndex cells captured s) =
      if s ∈ cells then some s else (late ++ captured)[captured.idxOf s]? := by
  have hcount : c.cellCount =
      cells.length + late.length + (captured.length + lateCaptured.length) := by
    rw [cellCount, ← Array.length_toList, ← Array.length_toList, hcells, hcaptured,
      List.length_append, List.length_append]
  rw [cellName?_eq, hcells, hcaptured, hcount, Assembler.cellIndex]
  split
  next hmem =>
    have hlt := List.idxOf_lt_length_iff.mpr hmem
    refine ⟨by omega, ?_⟩
    rw [List.append_assoc, List.getElem?_append_left hlt, List.getElem?_eq_getElem hlt,
      List.getElem_idxOf hlt]
  next hmem =>
    have hlt := List.idxOf_lt_length_iff.mpr (hs.resolve_left hmem)
    refine ⟨by omega, ?_⟩
    rw [List.append_assoc, List.getElem?_append_right (by omega), Nat.add_sub_cancel_left,
      ← List.append_assoc, List.getElem?_append_left (by simp; omega)]

end Code

/-- The tables of a code object hold what all directives declare. -/
lemma cells_of_assemble {name : String} {ds : List Directive} {c : Code}
    (h : assemble name ds = .ok c) :
    c.cellvars.toList = ds.flatMap Directive.cells ∧
      c.freevars.toList = ds.flatMap Directive.captured := by
  obtain ⟨-, -, htables⟩ := Assembler.build_ok h
  obtain ⟨hcells, hcaptured⟩ := Assembler.cells_run { name } ds
  rw [htables]
  exact ⟨hcells, hcaptured⟩

/-- An instruction on a cell is written for a variable that has been declared. -/
lemma cellIndex?_of_assemble {name s : String} {before after : List Directive} {op : Opcode}
    {c : Code} (h : assemble name (before ++ .deref op s :: after) = .ok c) :
    (s ∈ before.flatMap Directive.cells ∨ s ∈ before.flatMap Directive.captured) ∧
      (Assembler.run { name } before).cellIndex? s = some (Assembler.cellIndex
        (before.flatMap Directive.cells) (before.flatMap Directive.captured) s) := by
  have herror := (Assembler.extends_run_of_append { name } before (.deref op s) after).error
    (Assembler.build_ok h).1
  obtain ⟨hcells, hcaptured⟩ := Assembler.cells_run { name } before
  have hindex := (Assembler.run { name } before).cellIndex?_eq s
  rw [hcells, hcaptured] at hindex
  simp only [List.nil_append] at hindex
  by_cases hs : s ∈ before.flatMap Directive.cells ∨ s ∈ before.flatMap Directive.captured
  · exact ⟨hs, by rw [hindex, if_pos hs]⟩
  · rw [if_neg hs] at hindex
    rw [Assembler.apply, Assembler.emitDeref, hindex] at herror
    exact absurd herror (Assembler.error_fail_ne _ _)

/-- **The cell of an instruction.** Let directives give the code object `c`, and let one of them
write an instruction on the cell of `s`. Then `s` has been declared before it. The instruction is
decoded to the index that `s` had then, among the captured locals and after them the captured
variables. In the end this is the index of `s` if `s` is a captured local, or if no captured locals
have been declared after the instruction. Otherwise these have moved the captured variables, and
another variable has the index, unless one of the late names happens to be `s` in that place.

An argument has 32 bits: an index beyond those becomes the last one that it can hold. -/
theorem deref_addresses_variable {name s : String} {before after : List Directive} {op : Opcode}
    {c : Code} (h : assemble name (before ++ .deref op s :: after) = .ok c)
    (hop : op.operandKind = .free) :
    let cells := before.flatMap Directive.cells
    let captured := before.flatMap Directive.captured
    let late := after.flatMap Directive.cells
    let index := Assembler.cellIndex cells captured s
    (s ∈ cells ∨ s ∈ captured) ∧
    ∃ i, c.decode (Assembler.run { name } before).offset = .ok i ∧ i.opcode = some op ∧
      i.operand = .free (min index (UInt32.size - 1)) ∧
      c.cellName? index = (if s ∈ cells then some s else (late ++ captured)[captured.idxOf s]?) ∧
      (c.cellName? index = some s ↔
        s ∈ cells ∨ late = [] ∨ late[captured.idxOf s]? = some s) := by
  intro cells captured late index
  obtain ⟨hs, hindex⟩ := cellIndex?_of_assemble h
  obtain ⟨hcells, hcaptured⟩ := cells_of_assemble h
  rw [List.flatMap_append] at hcells hcaptured
  obtain ⟨hlt, hname⟩ := Code.cellName?_cellIndex hcells hcaptured hs
  have hstored := stored_of_assemble h rfl
  have hresolve : c.resolve op (Assembler.indexArg index).toNat
      (((Assembler.run { name } before).apply (.deref op s)).offset) =
        .ok (.free (min index (UInt32.size - 1))) := by
    rw [Code.resolve, hop, Emission.toNat_indexArg]
    exact if_pos (Nat.lt_of_le_of_lt (Nat.min_le_left _ _) hlt)
  obtain ⟨i, hi, hopcode, hoperand⟩ :=
    hstored.decode_of_resolve (by rw [Assembler.argument?, hindex]; rfl) hresolve
  replace hname : c.cellName? index =
      if s ∈ cells then some s else (late ++ captured)[captured.idxOf s]? := hname
  refine ⟨hs, i, hi, hopcode, hoperand, hname, ?_⟩
  rw [hname]
  by_cases hcell : s ∈ cells
  · simp [hcell]
  · have hcaptured : s ∈ captured := hs.resolve_left hcell
    rw [if_neg hcell, Assembler.getElem?_late_append_iff hcaptured]
    simp [hcell]

/-- The second of two captured variables, after a captured local; a third is declared later. -/
theorem deref_addresses_second_captured_variable :
    let before : List Directive := [.cellvars ["a"], .freevars ["x", "y"]]
    let after : List Directive := [.op .returnValue, .freevars ["z"]]
    ∃ c i, assemble "f" (before ++ .deref .loadDeref "y" :: after) = .ok c ∧
      Opcode.loadDeref.operandKind = .free ∧ c.decode 0 = .ok i ∧ i.operand = .free 2 ∧
      c.cellName? 2 = some "y" := by
  intro before after
  have hassemble : assemble "f" (before ++ .deref .loadDeref "y" :: after) = .ok
      ⟨"f", #[136, 2, 0, 83], #[], #[], #[], #["a"], #["x", "y", "z"], 0, 0, 0, 1⟩ := by
    cbv
  obtain ⟨-, i, hi, -, hoperand, -, hname⟩ := deref_addresses_variable hassemble rfl
  exact ⟨_, i, hassemble, rfl, hi, hoperand, hname.mpr (.inr (.inl rfl))⟩

/-- A captured local that is declared after an instruction on a captured variable takes its
index. -/
theorem late_cell_takes_index_of_captured_variable :
    ∃ c i, assemble "f" [.freevars ["x"], .deref .loadDeref "x", .cellvars ["c"]] = .ok c ∧
      c.decode 0 = .ok i ∧ i.operand = .free 0 ∧ c.cellName? 0 = some "c" := by
  refine ⟨⟨"f", #[136, 0, 0], #[], #[], #[], #["c"], #["x"], 0, 0, 0, 1⟩,
    ⟨0, 3, 136, some .loadDeref, .free 0, 0⟩, ?_, ?_, rfl, rfl⟩
  · cbv
  · cbv

end StackVM
