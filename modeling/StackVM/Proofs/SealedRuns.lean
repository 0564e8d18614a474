/-
Sealed runs. A machine is sealed if every cell that it refers to is a cell of its heap. Then
a new cell is one that nothing refers to, and a cell holds what was last stored in it.

* `Eval.newCells_run`, `Frame.make_run`: new cells, and the cells of a new frame;
* `Heap.Sealed`, `Machine.Sealed`: every cell that is referred to is there;
* `Machine.Enlarges`: a sealed machine has the cells and the functions of an earlier heap;
* `Exec.execute_leads`: what instructions other than stores do;
* `Moment.cell?`, `Moment.stores?`: the accesses to cells;
* `Moment.next_of_stores?`, `Moment.next_enlarges`: what a store does, and what every other
  step does;
* `Moment.iterate_sealed`, `Moment.iterate_cell`: what holds all along a run.
-/
import StackVM.Host.Session
import StackVM.Proofs.ScopedFrames
import StackVM.Proofs.StackEffects

namespace StackVM

variable {n : Nat} {h₀ : Heap}

/-! ### New cells -/

namespace Store

variable {kind : RefKind} {α : Type} {s : Store kind α} {as : List α}

/-- A store with further objects. -/
def addAll (s : Store kind α) (as : List α) : Store kind α :=
  ⟨s.items ++ as.toArray⟩

lemma size_addAll : (s.addAll as).size = s.size + as.length := by
  simp [addAll, size]

lemma addAll_addAll (s : Store kind α) (as bs : List α) :
    (s.addAll as).addAll bs = s.addAll (as ++ bs) := by
  simp [addAll]

/-- The further objects are found after the others. -/
lemma get?_addAll {j : Nat} : (s.addAll as).get? ⟨s.size + j⟩ = as[j]? := by
  show (s.items ++ as.toArray)[s.items.size + j]? = as[j]?
  rw [Array.getElem?_append_right (Nat.le_add_right _ _), Nat.add_sub_cancel_left,
    List.getElem?_toArray]

lemma All.empty {P : α → Prop} : ({} : Store kind α).All P := by
  intro r a ha
  cases ha

lemma All.addAll {P : α → Prop} (h : s.All P) (has : ∀ a ∈ as, P a) : (s.addAll as).All P := by
  intro r a ha
  rw [get?, Store.addAll, Array.getElem?_append] at ha
  split at ha
  · exact h r a ha
  · exact has a (List.mem_toArray.mp (Array.mem_of_getElem? ha))

end Store

/-- New cells come after all others, in the order of their contents. -/
lemma Eval.newCells_run (contents : List (Option Value)) (h : Heap) :
    Eval.newCells contents h =
      .ok ((List.range' h.cells.size contents.length).map Ref.mk)
        { h with cells := h.cells.addAll contents } := by
  induction contents generalizing h with
  | nil =>
      show EStateM.Result.ok _ _ = _
      simp [Store.addAll]
  | cons content contents ih =>
      have hnew : Eval.newCell content h =
          .ok ⟨h.cells.size⟩ { h with cells := h.cells.alloc content } := rfl
      rw [newCells, bind_of_ok hnew, bind_of_ok (ih _)]
      show EStateM.Result.ok _ _ = _
      simp [Store.alloc, Store.size, Store.addAll, List.range'_succ]

/-- The cells of a new frame: those of captured locals are new and hold the values that the
locals have, then come those of the closure, and new ones for the cells that it lacks. -/
lemma Frame.make_run (code : CodeObject) (globals : Ref .namespace)
    (locals : Option (Ref .namespace)) (builtins : Ref .namespace) (closure : List (Ref .cell))
    (h : Heap) :
    Frame.make code (some globals) locals builtins closure h =
      let contents := code.code.cellvars.toList.map (h.names (locals.getD globals)).get?
      let free := closure.take code.code.freevars.size
      let lacking := List.replicate (code.code.freevars.size - free.length) none
      let own := (List.range' h.cells.size contents.length).map Ref.mk
      let rest := (List.range' (h.cells.size + contents.length) lacking.length).map Ref.mk
      .ok { code, locals := locals.getD globals, globals, builtins, cells := own ++ free ++ rest }
        { h with cells := h.cells.addAll (contents ++ lacking) } := by
  extract_lets contents free lacking own rest
  have hget : (get : Eval Heap) h = .ok h h := rfl
  have hown := Eval.newCells_run contents h
  have hlacking := Eval.newCells_run lacking { h with cells := h.cells.addAll contents }
  rw [Store.size_addAll, Store.addAll_addAll] at hlacking
  have hglobals : (pure globals : Eval (Ref .namespace)) h = .ok globals h := rfl
  show ((pure globals : Eval (Ref .namespace)) >>= _) h = _
  rw [bind_of_ok hglobals]
  show ((get : Eval Heap) >>= _) h = _
  rw [bind_of_ok hget, bind_of_ok hown, bind_of_ok hlacking]
  rfl

/-- Without globals a frame gets those of a new program. -/
lemma Frame.make_none (code : CodeObject) (locals : Option (Ref .namespace))
    (builtins : Ref .namespace) (closure : List (Ref .cell)) :
    Frame.make code none locals builtins closure =
      Eval.newMain >>= fun g => Frame.make code (some g) locals builtins closure :=
  rfl

/-! ### Sealed heaps -/

namespace Heap

/-- Every cell that stands in an object of the heap is a cell of the heap. -/
def Sealed (h : Heap) : Prop :=
  h.Within h.cells.size

lemma Within.mono {k : Nat} (hkn : k ≤ n) {h : Heap} (hh : h.Within k) : h.Within n where
  lists := hh.lists.mono fun _ hi v hv => (hi v hv).mono hkn
  dicts := hh.dicts.mono fun _ hd e he => ⟨(hd e he).1.mono hkn, (hd e he).2.mono hkn⟩
  cells := hh.cells.mono fun _ hc v hv => (hc v hv).mono hkn
  iters := hh.iters.mono fun it hi => by
    cases it with
    | tuple rest => exact fun v hv => (hi v hv).mono hkn
    | _ => trivial
  functions := hh.functions.mono fun _ hf =>
    ⟨fun v hv => (hf.defaults v hv).mono hkn, fun d hd => (hf.kwdefaults d hd).mono hkn,
      fun r hr => Nat.lt_of_lt_of_le (hf.closure r hr) hkn⟩
  namespaces := hh.namespaces.mono fun _ hns b hb => (hns b hb).mono hkn

end Heap

lemma Frame.Within.mono {k : Nat} (hkn : k ≤ n) {f : Frame} (hf : f.Within k) : f.Within n where
  stack := fun v hv => (hf.stack v hv).mono hkn
  blocks := by
    intro b hb
    have hkind := hf.blocks b hb
    cases hk : b.kind with
    | cleanup pending =>
        rw [hk] at hkind
        cases pending with
        | returning v => exact Value.Within.mono hkn hkind
        | _ => trivial
    | _ => trivial
  cells := fun r hr => Nat.lt_of_lt_of_le (hf.cells r hr) hkn

/-- A new frame has cells of the heap only, and the heap stays sealed. -/
lemma Frame.make_sealed {code : CodeObject} {globals locals : Option (Ref .namespace)}
    {builtins : Ref .namespace} {closure : List (Ref .cell)} {h h' : Heap} {f : Frame}
    (hh : h.Sealed) (hc : ∀ r ∈ closure, r.index < h.cells.size)
    (hmake : Frame.make code globals locals builtins closure h = .ok f h') :
    h'.Sealed ∧ f.Within h'.cells.size := by
  have withGlobals : ∀ g h, h.Sealed → (∀ r ∈ closure, r.index < h.cells.size) →
      Frame.make code (some g) locals builtins closure h = .ok f h' →
      h'.Sealed ∧ f.Within h'.cells.size := by
    intro g h hh hc hmake
    rw [Frame.make_run] at hmake
    extract_lets contents free lacking own rest at hmake
    cases hmake
    have hsize : (h.cells.addAll (contents ++ lacking)).size =
        h.cells.size + (contents.length + lacking.length) := by
      rw [Store.size_addAll, List.length_append]
    have hcontents : ∀ content ∈ contents ++ lacking, ∀ v ∈ content,
        v.Within h.cells.size := by
      intro content hcontent v hv
      rcases List.mem_append.mp hcontent with hmem | hmem
      · obtain ⟨name, -, rfl⟩ := List.mem_map.mp hmem
        exact (hh.names _).get? hv
      · rw [List.eq_of_mem_replicate hmem] at hv
        cases hv
    refine ⟨?_, ⟨List.forall_mem_nil _, List.forall_mem_nil _, ?_⟩⟩
    · exact Heap.Within.mono (hsize ▸ Nat.le_add_right _ _)
        { hh with cells := hh.cells.addAll hcontents }
    · show ∀ r ∈ own ++ free ++ rest, r.index < (h.cells.addAll (contents ++ lacking)).size
      rw [hsize]
      intro r hr
      rcases List.mem_append.mp hr with hr | hr
      · rcases List.mem_append.mp hr with hr | hr
        · obtain ⟨k, hk, rfl⟩ := List.mem_map.mp hr
          obtain ⟨-, hk⟩ := List.mem_range'_1.mp hk
          show k < _
          omega
        · have := hc r (List.mem_of_mem_take hr)
          omega
      · obtain ⟨k, hk, rfl⟩ := List.mem_map.mp hr
        obtain ⟨-, hk⟩ := List.mem_range'_1.mp hk
        show k < _
        omega
  cases globals with
  | some g => exact withGlobals g h hh hc hmake
  | none =>
      rw [Frame.make_none] at hmake
      obtain ⟨g, h₁, hmain, hmake⟩ := bind_ok_iff.mp hmake
      obtain ⟨hkept, -⟩ := Eval.newMain_keeps.results h g h₁ hh.kept hmain
      have hsame : h₁.cells.size = h.cells.size := by rw [hkept.cells]
      refine withGlobals g h₁ ?_ (hsame ▸ hc) hmake
      rw [Heap.Sealed, hsame]
      exact hkept.within

/-! ### Sealed machines -/

namespace Machine

/-- Every cell that the machine refers to is a cell of its heap. -/
structure Sealed (m : Machine) : Prop extends m.Within m.heap.cells.size where
  heap : m.heap.Sealed

/-- A sealed machine has all cells of the heap `h₀`, with the same contents, and all its
functions. -/
structure Enlarges (h₀ : Heap) (m : Machine) : Prop extends m.Sealed where
  cells : h₀.cells.Extends m.heap.cells
  functions : h₀.functions.Extends m.heap.functions

variable {m : Machine} {f : Frame} {below : List Frame}

lemma Sealed.kept (hm : m.Sealed) : m.Kept m.heap.cells.size m.heap :=
  ⟨hm.toWithin, Heap.Within.kept hm.heap⟩

lemma Kept.enlarges (hm : m.Kept h₀.cells.size h₀) : m.Enlarges h₀ := by
  have hcells := hm.heap.cells
  refine ⟨⟨?_, ?_⟩, ?_, hm.heap.functions⟩
  · rw [hcells]
    exact hm.toWithin
  · rw [Heap.Sealed, hcells]
    exact hm.heap.within
  · rw [hcells]
    exact .refl _

/-- The frames and the value that is being returned may change, and so may the identity that
the next object gets. -/
lemma Enlarges.change {m' : Machine} (hm : m.Enlarges h₀)
    (hframes : ∀ f ∈ m'.frames, f.Within m.heap.cells.size)
    (hresult : ∀ v ∈ m'.registers.result, v.Within m.heap.cells.size)
    (hheap : ∃ idents, m'.heap = { m.heap with idents }) : m'.Enlarges h₀ := by
  obtain ⟨idents, hheap⟩ := hheap
  obtain ⟨lists, dicts, cells, iters, functions, namespaces⟩ := hm.heap
  refine ⟨⟨⟨?_, ?_⟩, ?_⟩, ?_, ?_⟩
  · rw [hheap]
    exact hframes
  · rw [hheap]
    exact hresult
  · rw [hheap]
    exact ⟨lists, dicts, cells, iters, functions, namespaces⟩
  · rw [hheap]
    exact hm.cells
  · rw [hheap]
    exact hm.functions

/-- The current frame is replaced. -/
lemma Enlarges.withTop (hm : m.Enlarges h₀) (hf : m.frames = f :: below) {f' : Frame}
    (hf' : f'.Within m.heap.cells.size) : (m.withTop f').Enlarges h₀ := by
  refine hm.change ?_ hm.result ⟨_, rfl⟩
  rw [frames_withTop hf]
  exact List.forall_mem_cons.mpr
    ⟨hf', fun g hg => hm.frames g (hf ▸ List.mem_cons_of_mem f hg)⟩

end Machine

/-! ### Calls -/

/-- A frame can always be made. -/
lemma Frame.make_succeeds (code : CodeObject) (globals locals : Option (Ref .namespace))
    (builtins : Ref .namespace) (closure : List (Ref .cell)) (h : Heap) :
    ∃ f h', Frame.make code globals locals builtins closure h = .ok f h' := by
  cases globals with
  | some g => exact ⟨_, _, Frame.make_run code g locals builtins closure h⟩
  | none =>
      obtain ⟨g, h₁, hmain⟩ : ∃ g h₁, Eval.newMain h = .ok g h₁ := ⟨_, _, rfl⟩
      rw [Frame.make_none, bind_of_ok hmain]
      exact ⟨_, _, Frame.make_run code g locals builtins closure h₁⟩

/-- From a state in which `I` holds, `x` leads to one in which `J` does, whatever it comes to. -/
structure Leads {ε σ α : Type} (I J : σ → Prop) (x : EStateM ε σ α) : Prop where
  results : ∀ s a s', I s → x s = .ok a s' → J s'
  failures : ∀ s e s', I s → x s = .error e s' → J s'

namespace Keeps

variable {ε σ α β : Type} {I J : σ → Prop} {P : α → Prop} {x : EStateM ε σ α}

lemma leads (hx : Keeps I P x) (hIJ : ∀ s, I s → J s) : Leads I J x :=
  ⟨fun s a s' hs h => hIJ s' (hx.results s a s' hs h).1,
    fun s e s' hs h => hIJ s' (hx.failures s e s' hs h)⟩

lemma bind_leads {f : α → EStateM ε σ β} (hx : Keeps I P x) (hIJ : ∀ s, I s → J s)
    (hf : ∀ a, P a → Leads I J (f a)) : Leads I J (x >>= f) := by
  refine ⟨?_, ?_⟩
  · intro s b s'' hs h
    obtain ⟨a, s', h₁, h₂⟩ := bind_ok_iff.mp h
    obtain ⟨hs', ha⟩ := hx.results s a s' hs h₁
    exact (hf a ha).results s' b s'' hs' h₂
  · intro s e s'' hs h
    rcases bind_error_iff.mp h with h₁ | ⟨a, s', h₁, h₂⟩
    · exact hIJ s'' (hx.failures s e s'' hs h₁)
    · obtain ⟨hs', ha⟩ := hx.results s a s' hs h₁
      exact (hf a ha).failures s' e s'' hs' h₂

end Keeps

namespace Exec

open Machine (Kept Enlarges)

/-- A new frame is entered. Its cells are there even if the limit of frames keeps it out. -/
lemma enterMade_leads (code : CodeObject) (globals locals : Option (Ref .namespace))
    (builtins : Ref .namespace) {closure : List (Ref .cell)}
    (hclosure : ∀ r ∈ closure, r.index < h₀.cells.size) :
    Leads (Kept h₀.cells.size h₀) (Enlarges h₀)
      (liftM (Frame.make code globals locals builtins closure) >>= enter : Exec Unit) := by
  -- the machine with the new heap is as good as the one before
  have made : ∀ m f m₁, Kept h₀.cells.size h₀ m →
      (liftM (Frame.make code globals locals builtins closure) : Exec Frame) m = .ok f m₁ →
      m₁.Enlarges h₀ ∧ f.Within m₁.heap.cells.size := by
    intro m f m₁ hm h
    obtain ⟨h', hmake, rfl⟩ := lift_ok_iff.mp h
    have hsealed : m.Enlarges h₀ := hm.enlarges
    have hc : ∀ r ∈ closure, r.index < m.heap.cells.size := by
      rw [hm.heap.cells]
      exact hclosure
    obtain ⟨hh', hf⟩ := Frame.make_sealed hsealed.heap hc hmake
    have hintact := (Frame.make_intact _ _ _ _ _).results _ _ _ hmake
    have hle := Store.size_le_of_extends hintact.cells
    refine ⟨⟨⟨⟨?_, ?_⟩, hh'⟩, hsealed.cells.trans hintact.cells,
      hsealed.functions.trans hintact.functions⟩, hf⟩
    · exact fun g hg => (hsealed.frames g hg).mono hle
    · exact fun v hv => (hsealed.result v hv).mono hle
  refine ⟨?_, ?_⟩
  · intro m u m' hm h
    obtain ⟨f, m₁, h₁, h₂⟩ := bind_ok_iff.mp h
    obtain ⟨hm₁, hf⟩ := made m f m₁ hm h₁
    obtain ⟨-, hframes, hregs⟩ := enter_ok h₂
    refine hm₁.change ?_ (hregs ▸ hm₁.result) ⟨_, enter_heap h₂⟩
    rw [hframes]
    exact List.forall_mem_cons.mpr ⟨hf, hm₁.frames⟩
  · intro m e m' hm h
    rcases bind_error_iff.mp h with h | ⟨f, m₁, h₁, h₂⟩
    · obtain ⟨c, h', herror, -⟩ := lift_error_iff.mp h
      obtain ⟨f, h'', hok⟩ := Frame.make_succeeds code globals locals builtins closure m.heap
      rw [hok] at herror
      cases herror
    · obtain ⟨-, rfl⟩ := enter_error h₂
      exact (made m f m' hm h₁).1

lemma enterFunction_leads {fn : Function} {args : Args} (hfn : fn.Within h₀.cells.size)
    (hargs : args.Within h₀.cells.size) :
    Leads (Kept h₀.cells.size h₀) (Enlarges h₀) (enterFunction fn args) := by
  have henlarges : ∀ m, Kept h₀.cells.size h₀ m → m.Enlarges h₀ := fun m hm => hm.enlarges
  refine (lift_keeps (Signature.bind_keeps hfn.defaults hfn.kwdefaults hargs)).bind_leads
    henlarges fun bound hbound => ?_
  refine (lift_keeps (Eval.newNamespace_keeps (Namespace.within_ofList hbound))).bind_leads
    henlarges fun locals _ => ?_
  exact frame_keeps.bind_leads henlarges fun f _ => enterMade_leads _ _ _ _ hfn.closure

lemma callFunction_leads (arg : Nat) :
    Leads (Kept h₀.cells.size h₀) (Enlarges h₀) (callFunction arg) := by
  have henlarges : ∀ m, Kept h₀.cells.size h₀ m → m.Enlarges h₀ := fun m hm => hm.enlarges
  refine (popN_keeps _).bind_leads henlarges fun pairs hpairs => ?_
  refine (ofExcept_keeps fun _ => Keyword.within_ofPairs hpairs).bind_leads
    henlarges fun keywords hkeywords => ?_
  refine (popN_keeps _).bind_leads henlarges fun positional hpositional => ?_
  refine pop_keeps.bind_leads henlarges fun v _ => ?_
  have hargs : Args.Within h₀.cells.size { positional, keywords } := ⟨hpositional, hkeywords⟩
  cases v with
  | function r =>
      refine heap_keeps.bind_leads henlarges fun h hh => ?_
      exact enterFunction_leads (hh.within.function r) hargs
  | builtin b =>
      refine (lift_keeps (Builtin.call_keeps b hargs)).bind_leads henlarges fun out hout => ?_
      exact ((put_keeps _).bind fun _ _ => push_keeps hout).leads henlarges
  | excClass c =>
      refine (lift_keeps (ExcClass.call_keeps c hargs)).bind_leads henlarges fun v hv => ?_
      exact (push_keeps hv).leads henlarges
  | _ => exact (fail_keeps (P := fun _ => True) _).leads henlarges

/-! ### Stores in cells -/

variable {m m' : Machine} {f : Frame} {below : List Frame} {index : Nat}

lemma cellAt_run (hf : m.frames = f :: below) {r : Ref .cell} (hr : f.cells[index]? = some r) :
    cellAt index m = .ok r m := by
  rw [cellAt, bind_of_ok (frame_run hf), hr]
  rfl

lemma cellAt_ok {r : Ref .cell} (hf : m.frames = f :: below) (h : cellAt index m = .ok r m') :
    f.cells[index]? = some r ∧ m' = m := by
  rw [cellAt, bind_of_ok (frame_run hf)] at h
  cases hr : f.cells[index]? with
  | none =>
      rw [hr] at h
      cases h
  | some r' =>
      rw [hr] at h
      cases h
      exact ⟨rfl, rfl⟩

/-- A store assigns the top value to the cell, and does nothing else to the heap. -/
lemma storeCell_run (hf : m.frames = f :: below) {r : Ref .cell} {v : Value} {vs : List Value}
    (hr : f.cells[index]? = some r) (hv : f.stack = v :: vs) :
    storeCell index m =
      .ok () { m.withTop { f with stack := vs } with
        heap := { m.heap with cells := m.heap.cells.set r (some v) } } := by
  have hpop := pop_run hf
  simp only [hv] at hpop
  have hcell : cellAt index (m.withTop { f with stack := vs }) = .ok r _ :=
    cellAt_run (Machine.frames_withTop hf _) hr
  rw [storeCell, bind_of_ok hpop, bind_of_ok hcell]
  rfl

/-- A store that succeeds has a cell and a value. -/
lemma storeCell_ok (hf : m.frames = f :: below) (h : storeCell index m = .ok () m') :
    ∃ r v vs, f.cells[index]? = some r ∧ f.stack = v :: vs := by
  obtain ⟨v, m₁, h₁, h⟩ := bind_ok_iff.mp h
  obtain ⟨vs, hvs, rfl⟩ := pop_ok hf h₁
  obtain ⟨r, m₂, h₂, -⟩ := bind_ok_iff.mp h
  exact ⟨r, v, vs, (cellAt_ok (Machine.frames_withTop hf _) h₂).1, hvs⟩

/-- A store that fails has changed no cell. -/
lemma storeCell_failures (index : Nat) {e : Fault} (hm : m.Kept n h₀)
    (h : storeCell index m = .error e m') : m'.Kept n h₀ := by
  rcases bind_error_iff.mp h with h | ⟨v, m₁, h₁, h⟩
  · exact pop_keeps.failures _ _ _ hm h
  · have hm₁ := (pop_keeps.results _ _ _ hm h₁).1
    rcases bind_error_iff.mp h with h | ⟨r, m₂, h₂, h⟩
    · exact (cellAt_keeps index).failures _ _ _ hm₁ h
    · obtain ⟨c, h', hset, -⟩ := lift_error_iff.mp h
      cases hset

/-! ### Instructions -/

/-- Every instruction but a store in a cell leaves the cells as they are. -/
lemma execute_leads (code : CodeObject) {i : Instruction} (hop : i.opcode ≠ some .storeDeref) :
    Leads (Kept h₀.cells.size h₀) (Enlarges h₀) (execute code i) := by
  rw [execute.eq_def]
  cases hi : i.opcode with
  | none => exact (Keeps.throw (P := fun _ => True) _).leads fun _ hm => hm.enlarges
  | some op =>
      by_cases hcall : op = .callFunction
      · subst hcall
        refine ⟨?_, ?_⟩
        · intro m s m' hm h
          obtain ⟨u, m₁, h₁, h⟩ := bind_ok_iff.mp h
          cases h
          exact (callFunction_leads _).results _ _ _ hm h₁
        · intro m e m' hm h
          rcases bind_error_iff.mp h with h | ⟨u, m₁, -, h⟩
          · exact (callFunction_leads _).failures _ _ _ hm h
          · cases h
      · refine (executeOp_keeps code i hcall ?_).leads fun _ hm => hm.enlarges
        rintro rfl
        exact hop hi

lemma execute_storeDeref (code : CodeObject) {i : Instruction}
    (hop : i.opcode = some .storeDeref) (hindex : i.operand.cell? = some index) :
    execute code i m = (storeCell index >>= fun _ => pure none : Exec (Option Signal)) m := by
  rw [execute, hop]
  show (operand i i.operand.cell? >>= storeCell >>= fun _ => pure none : Exec (Option Signal)) m = _
  rw [hindex]
  rfl

lemma execute_storeDeref_ok {code : CodeObject} {i : Instruction} {s : Option Signal}
    (hop : i.opcode = some .storeDeref) (h : execute code i m = .ok s m') :
    ∃ index, i.operand.cell? = some index ∧ storeCell index m = .ok () m' := by
  rw [execute, hop] at h
  obtain ⟨u, m₁, h₁, h⟩ := bind_ok_iff.mp h
  cases h
  obtain ⟨index, m₂, h₂, hstore⟩ := bind_ok_iff.mp h₁
  obtain ⟨hindex, hm₂⟩ := operand_ok h₂
  exact ⟨index, hindex, hm₂ ▸ hstore⟩

lemma execute_storeDeref_failures {code : CodeObject} {i : Instruction} {e : Fault}
    (hop : i.opcode = some .storeDeref) (hm : m.Kept n h₀)
    (h : execute code i m = .error e m') : m'.Kept n h₀ := by
  rw [execute, hop] at h
  rcases bind_error_iff.mp h with h | ⟨u, m₁, -, h⟩
  · rcases bind_error_iff.mp h with h | ⟨index, m₁, h₁, h⟩
    · exact (operand_keeps i _).failures _ _ _ hm h
    · exact storeCell_failures index ((operand_keeps i _).results _ _ _ hm h₁).1 h
  · cases h

end Exec

/-! ### Faults and signals -/

/-- An exception takes an identity from the heap, and nothing else. -/
lemma Fault.heap_raisedAt (e : Fault) (p : Place) (h : Heap) :
    ∃ idents, (e.raisedAt p h).2 = { h with idents } := by
  cases e <;> exact ⟨_, rfl⟩

/-- The cells in what unwinding leaves of a frame and the registers. -/
structure Unwinding.Within (n : Nat) (u : Unwinding) : Prop where
  stack : ∀ v ∈ u.stack, v.Within n
  blocks : ∀ b ∈ u.blocks, b.kind.Within n
  result : ∀ v ∈ u.registers.result, v.Within n

namespace Block

variable {regs : Registers} {s : Signal}

lemma park?_within {kind : BlockKind} {p : Parked} (h : park? kind s regs = some p)
    (hregs : ∀ v ∈ regs.result, v.Within n) :
    p.pending.Within n ∧ (∀ v ∈ p.instance?.toList, v.Within n) ∧
      ∀ v ∈ p.registers.result, v.Within n := by
  rw [park?.eq_def] at h
  split at h
  · obtain ⟨r, -, rfl⟩ := Option.map_eq_some_iff.mp h
    exact ⟨trivial, List.forall_mem_singleton.mpr trivial, hregs⟩
  · obtain ⟨r, -, rfl⟩ := Option.map_eq_some_iff.mp h
    exact ⟨trivial, List.forall_mem_nil _, hregs⟩
  · cases h
    refine ⟨?_, List.forall_mem_nil _, Value.within_none⟩
    show Value.Within n (regs.result.getD .none)
    cases hr : regs.result with
    | none => trivial
    | some v => exact hregs v hr
  · cases h
    exact ⟨trivial, List.forall_mem_nil _, hregs⟩
  · cases h
    exact ⟨trivial, List.forall_mem_nil _, hregs⟩
  · cases h

/-- A handler that takes a value to return keeps it in its block. -/
lemma unwind_within (hregs : ∀ v ∈ regs.result, v.Within n) {blocks : List Block}
    {stack : List Value} (hblocks : ∀ b ∈ blocks, b.kind.Within n)
    (hstack : ∀ v ∈ stack, v.Within n) : (unwind s regs blocks stack).Within n := by
  induction blocks generalizing stack with
  | nil => exact ⟨hstack, hblocks, hregs⟩
  | cons b below ih =>
      have hbelow := (List.forall_mem_cons.mp hblocks).2
      have hcut : ∀ v ∈ Frame.cut stack b.level, v.Within n :=
        fun v hv => hstack v (List.mem_of_mem_drop hv)
      rw [unwind]
      by_cases hloop : b.kind = .loop
      · rw [offer.eq_def, hloop]
        cases s with
        | continuing target => exact ⟨hstack, hblocks, hregs⟩
        | breaking => exact ⟨hcut, hbelow, hregs⟩
        | _ => exact ih hbelow hcut
      · rw [offer_of_ne_loop hloop]
        cases hp : park? b.kind s regs with
        | none => exact ih hbelow hcut
        | some p =>
            obtain ⟨hpending, hinstance, hresult⟩ := park?_within hp hregs
            exact ⟨List.forall_mem_append.mpr ⟨hinstance, hcut⟩,
              List.forall_mem_cons.mpr ⟨hpending, hbelow⟩, hresult⟩

end Block

namespace Machine

variable {m : Machine}

lemma Enlarges.capture (hm : m.Enlarges h₀) (e : Fault) (p : Place) :
    (m.capture e p).Enlarges h₀ :=
  hm.change hm.frames hm.result (e.heap_raisedAt p m.heap)

lemma Enlarges.unwind (hm : m.Enlarges h₀) (s : Signal) : (m.unwind s).1.Enlarges h₀ := by
  cases hf : m.frames with
  | nil =>
      rw [Machine.unwind, hf]
      exact hm
  | cons f below =>
      have hfw := hm.frames f (hf ▸ List.mem_cons_self)
      obtain ⟨hstack, hblocks, hresult⟩ :=
        Block.unwind_within (s := s) hm.result hfw.blocks hfw.stack
      have hf' : (f.unwind s m.registers).1.Within m.heap.cells.size :=
        ⟨hstack, hblocks, hfw.cells⟩
      have htop := hm.withTop hf hf'
      have changed : ({ m.withTop (f.unwind s m.registers).1 with
          registers := (f.unwind s m.registers).2.1 } : Machine).Enlarges h₀ :=
        htop.change htop.frames hresult ⟨_, rfl⟩
      rw [Machine.unwind, hf]
      dsimp only
      split
      · exact changed
      · exact changed
      · exact changed.change changed.frames changed.result ⟨_, rfl⟩

/-- The end of a frame, and the value that it gives. -/
lemma Enlarges.popFrame (hm : m.Enlarges h₀) (s : Signal) :
    (m.popFrame s).1.Enlarges h₀ ∧
      ∀ v, (m.popFrame s).2 = .ok v → v.Within (m.popFrame s).1.heap.cells.size := by
  cases hf : m.frames with
  | nil =>
      rw [Machine.popFrame, CallStack.pop?_of_nil hf]
      refine ⟨hm, ?_⟩
      intro v hv
      cases hv
  | cons f below =>
      obtain ⟨c, hc, hbelow⟩ := CallStack.pop?_of_cons hf
      have hframes : ∀ g ∈ c.frames, g.Within m.heap.cells.size :=
        fun g hg => hm.frames g (hf ▸ List.mem_cons_of_mem f (hbelow ▸ hg))
      rw [Machine.popFrame, hc]
      cases s with
      | returning =>
          refine ⟨hm.change hframes Value.within_none ⟨_, rfl⟩, ?_⟩
          intro v hv
          cases hv
          show Value.Within m.heap.cells.size (m.registers.result.getD .none)
          cases hr : m.registers.result with
          | none => trivial
          | some v => exact hm.result v hr
      | raising =>
          dsimp only [record]
          split
          · refine ⟨hm.change hframes hm.result ⟨_, rfl⟩, ?_⟩
            intro v hv
            cases hv
          · refine ⟨hm.change hframes hm.result ⟨_, rfl⟩, ?_⟩
            intro v hv
            cases hv
      | _ =>
          refine ⟨hm.change hframes hm.result ⟨_, rfl⟩, ?_⟩
          intro v hv
          cases hv

end Machine

/-! ### Runs -/

/-- A machine stays sealed when a value of it is assigned to a cell. -/
lemma Machine.Sealed.store {m : Machine} {f : Frame} {below : List Frame} {r : Ref .cell}
    {v : Value} {vs : List Value} (hm : m.Sealed) (hf : m.frames = f :: below)
    (hv : f.stack = v :: vs) :
    Machine.Sealed { m.withTop { f with stack := vs } with
      heap := { m.heap with cells := m.heap.cells.set r (some v) } } := by
  have hsize : (m.heap.cells.set r (some v)).size = m.heap.cells.size :=
    Array.size_setIfInBounds
  have hfw := hm.frames f (hf ▸ List.mem_cons_self)
  obtain ⟨hvw, hvs⟩ := List.forall_mem_cons.mp (hv ▸ hfw.stack)
  refine ⟨⟨?_, ?_⟩, ?_⟩
  · show ∀ g ∈ (m.withTop _).frames, g.Within (m.heap.cells.set r (some v)).size
    rw [hsize, Machine.frames_withTop hf]
    exact List.forall_mem_cons.mpr
      ⟨⟨hvs, hfw.blocks, hfw.cells⟩, fun g hg => hm.frames g (hf ▸ List.mem_cons_of_mem f hg)⟩
  · show ∀ w ∈ m.registers.result, w.Within (m.heap.cells.set r (some v)).size
    rw [hsize]
    exact hm.result
  · show Heap.Within (m.heap.cells.set r (some v)).size _
    rw [hsize]
    exact { hm.heap with cells := hm.heap.cells.set r (Value.within_some hvw) }

namespace Moment

variable {x : Moment} {l : Loop} {m : Machine} {r : Ref .cell} {v : Value}

/-- The cell that an instruction with the opcode `op` is to access. -/
def cell? (op : Opcode) (x : Moment) : Option (Ref .cell) := do
  let i ← x.instruction?
  let f ← x.frames.head?
  if i.opcode = some op then f.cells[← i.operand.cell?]? else none

/-- The cell and the value of a store that is to be executed. -/
def stores? (x : Moment) : Option (Ref .cell × Value) := do
  let r ← x.cell? .storeDeref
  let v ← x.operands.head?
  return (r, v)

lemma machine_enter (m : Machine) : (ofTurn (Loop.enter m)).machine = m := by
  rw [Loop.enter]
  split <;> rfl

lemma machine_resume (l : Loop) (m : Machine) : (ofTurn (l.resume m)).machine = m := by
  rw [Loop.resume]
  split
  · rfl
  · exact machine_enter m

/-- The machine after an instruction. -/
lemma machine_next_stepping {f : Frame} {below : List Frame} {i : Instruction}
    (h : l.InFrame f below) (hd : f.code.code.decode f.ip = .ok i) :
    (next (.stepping l)).machine = ((l.fetched i).dispatch l.code i).1 := by
  rw [next_stepping_decoded h.frames (h.code ▸ hd)]
  rcases (l.fetched i).dispatch l.code i with ⟨m, s⟩
  cases s with
  | none => exact machine_resume l m
  | some s => rfl

lemma instruction?_of_inFrame {f : Frame} {below : List Frame} {i : Instruction}
    (h : l.InFrame f below) (hd : f.code.code.decode f.ip = .ok i) :
    (stepping l).instruction? = some i := by
  rw [instruction?, h.frames]
  simp only [List.head?_cons, Option.bind_some, hd]
  rfl

lemma operands_of_frames {f : Frame} {below : List Frame} (hf : x.frames = f :: below) :
    x.operands = f.stack := by
  rw [operands, hf]
  rfl

/-- The machine about to execute an instruction is as good as it was. -/
lemma kept_fetched (hm : l.machine.Sealed) {f : Frame} {below : List Frame}
    (h : l.InFrame f below) (i : Instruction) :
    (l.fetched i).Kept l.machine.heap.cells.size l.machine.heap := by
  have hf := hm.frames f (h.frames ▸ List.mem_cons_self)
  refine ⟨⟨?_, hm.result⟩, hm.heap.kept⟩
  rw [h.frames_fetched]
  exact List.forall_mem_cons.mpr ⟨⟨hf.stack, hf.blocks, hf.cells⟩,
    fun g hg => hm.frames g (h.frames ▸ List.mem_cons_of_mem f hg)⟩

/-- An access to a cell, and where it stands. -/
lemma exists_of_cell? {op : Opcode} (h : x.Current) (hr : x.cell? op = some r) :
    ∃ l f below i index, x = .stepping l ∧ l.InFrame f below ∧
      f.code.code.decode f.ip = .ok i ∧ i.opcode = some op ∧
      i.operand.cell? = some index ∧ f.cells[index]? = some r := by
  obtain ⟨i, hi, hr⟩ := Option.bind_eq_some_iff.mp hr
  obtain ⟨l, f, below, rfl, hf, hd⟩ := exists_of_instruction? hi
  obtain ⟨f', below', hin⟩ := h
  obtain ⟨rfl, rfl⟩ : f = f' ∧ below = below' := List.cons.inj (hf.symm.trans hin.frames)
  obtain ⟨f', hhead, hr⟩ := Option.bind_eq_some_iff.mp hr
  rw [frames, machine, hf] at hhead
  cases hhead
  split at hr
  next hop =>
    obtain ⟨index, hindex, hr⟩ := Option.bind_eq_some_iff.mp hr
    exact ⟨l, f, below, i, index, rfl, hin, hd, hop, hindex, hr⟩
  next => cases hr

/-- A store that is to be executed, and where it stands. -/
lemma exists_of_stores? (h : x.Current) (hs : x.stores? = some (r, v)) :
    ∃ l f below i index vs, x = .stepping l ∧ l.InFrame f below ∧
      f.code.code.decode f.ip = .ok i ∧ i.opcode = some .storeDeref ∧
      i.operand.cell? = some index ∧ f.cells[index]? = some r ∧ f.stack = v :: vs := by
  obtain ⟨r', hr, hs⟩ := Option.bind_eq_some_iff.mp hs
  obtain ⟨v', hv, hs⟩ := Option.bind_eq_some_iff.mp hs
  cases hs
  obtain ⟨l, f, below, i, index, rfl, hin, hd, hop, hindex, hr⟩ := exists_of_cell? h hr
  rw [operands_of_frames (x := .stepping l) hin.frames] at hv
  obtain ⟨vs, hvs⟩ := List.head?_eq_some_iff.mp hv
  exact ⟨l, f, below, i, index, vs, rfl, hin, hd, hop, hindex, hr, hvs⟩

/-- A store that succeeds is one. -/
lemma stores?_of_storeCell {f : Frame} {below : List Frame} {i : Instruction} {index : Nat}
    {m' : Machine} (h : l.InFrame f below) (hd : f.code.code.decode f.ip = .ok i)
    (hop : i.opcode = some .storeDeref) (hindex : i.operand.cell? = some index)
    (hstore : Exec.storeCell index (l.fetched i) = .ok () m') :
    (stepping l).stores? ≠ none := by
  obtain ⟨r, v, vs, hr, hv⟩ := Exec.storeCell_ok (h.frames_fetched i) hstore
  have hhead : (stepping l).frames.head? = some f := by
    rw [frames, machine, h.frames]
    rfl
  have hr' : f.cells[index]? = some r := hr
  have hv' : f.stack = v :: vs := hv
  rw [stores?, cell?, instruction?_of_inFrame h hd, hhead,
    operands_of_frames (x := stepping l) h.frames]
  simp [hop, hindex, hr', hv']

/-- A store in a cell changes the cell, and nothing else on the heap. -/
lemma next_of_stores? (h : x.Current) (hx : x.machine.Sealed) (hs : x.stores? = some (r, v)) :
    x.next.machine.Sealed ∧ x.next.machine.heap =
      { x.machine.heap with cells := x.machine.heap.cells.set r (some v) } := by
  obtain ⟨l, f, below, i, index, vs, rfl, hin, hd, hop, hindex, hr, hv⟩ := exists_of_stores? h hs
  have hfetched := hin.frames_fetched i
  have hsealed : (l.fetched i).Sealed := (kept_fetched hx hin i).enlarges.toSealed
  rw [machine_next_stepping hin hd, Machine.dispatch,
    Exec.execute_storeDeref l.code hop hindex, bind_of_ok (Exec.storeCell_run hfetched hr hv)]
  exact ⟨hsealed.store hfetched hv, rfl⟩

/-- From one moment to the next nothing but a store changes a cell. -/
lemma next_enlarges (h : x.Current) (hx : x.machine.Sealed) (hs : x.stores? = none) :
    x.next.machine.Enlarges x.machine.heap := by
  have same : x.machine.Enlarges x.machine.heap := hx.kept.enlarges
  cases x with
  | stepping l =>
      obtain ⟨f, below, hin⟩ := h
      cases hd : f.code.code.decode f.ip with
      | error e =>
          rw [next_stepping_undecodable hin.frames (hin.code ▸ hd)]
          exact same.capture (.cause (.undecodable e)) ⟨l.code.code.name, f.ip⟩
      | ok i =>
          have hkept := kept_fetched hx hin i
          rw [machine_next_stepping hin hd, Machine.dispatch]
          by_cases hop : i.opcode = some .storeDeref
          · cases hrun : Exec.execute l.code i (l.fetched i) with
            | ok s m' =>
                obtain ⟨index, hindex, hstore⟩ := Exec.execute_storeDeref_ok hop hrun
                exact absurd hs (stores?_of_storeCell hin hd hop hindex hstore)
            | error e m' =>
                exact (Exec.execute_storeDeref_failures hop hkept hrun).enlarges.capture _ _
          · cases hrun : Exec.execute l.code i (l.fetched i) with
            | ok s m' => exact (Exec.execute_leads l.code hop).results _ _ _ hkept hrun
            | error e m' =>
                exact ((Exec.execute_leads l.code hop).failures _ _ _ hkept hrun).capture _ _
  | offering l s =>
      have hnext : (next (.offering l s)).machine = (l.machine.unwind s).1 := by
        rcases hu : l.machine.unwind s with ⟨m', s'⟩
        cases s' with
        | none =>
            rw [next_offering_taken hu]
            exact machine_resume l m'
        | some s' => rw [next_offering_escaped hu]; rfl
      rw [hnext]
      exact same.unwind s
  | leaving m s =>
      obtain ⟨hpopped, hvalue⟩ := same.popFrame s
      rcases hpop : m.popFrame s with ⟨m', result⟩
      rw [show (leaving m s).machine = m from rfl, hpop] at hpopped hvalue
      cases hf : m'.frames with
      | nil =>
          rw [next_leaving_last hpop hf]
          exact hpopped
      | cons f below =>
          cases result with
          | ok v =>
              have hfw := hpopped.frames f (hf ▸ List.mem_cons_self)
              rw [next_leaving_ok hpop hf, machine_enter]
              exact hpopped.withTop hf
                ⟨List.forall_mem_cons.mpr ⟨hvalue v rfl, hfw.stack⟩, hfw.blocks, hfw.cells⟩
          | error e =>
              rw [next_leaving_error hpop hf]
              exact hpopped.capture e f.place
  | ended m result => exact same

lemma Current.iterate (h : x.Current) (k : Nat) : (next^[k] x).Current := by
  induction k with
  | zero => exact h
  | succ k ih =>
      rw [Function.iterate_succ_apply']
      exact ih.transition.current ih

/-- From one moment to the next the machine stays sealed and loses no function. -/
lemma next_sealed (h : x.Current) (hx : x.machine.Sealed) :
    x.next.machine.Sealed ∧ x.machine.heap.functions.Extends x.next.machine.heap.functions := by
  cases hs : x.stores? with
  | none =>
      have hnext := next_enlarges h hx hs
      exact ⟨hnext.toSealed, hnext.functions⟩
  | some p =>
      obtain ⟨hsealed, hheap⟩ := next_of_stores? h hx hs
      rw [hheap]
      exact ⟨hsealed, .refl _⟩

/-- A run starts sealed if the heap is. -/
lemma start_sealed {m : Machine} (hm : m.heap.Sealed) (code : CodeObject)
    (globals locals : Option (Ref .namespace)) :
    (ofTurn (m.start code globals locals)).machine.Sealed := by
  have hrest : ({ m with calls := .empty, registers := {} } : Machine).Kept
      m.heap.cells.size m.heap :=
    ⟨⟨List.forall_mem_nil _, Value.within_none⟩, hm.kept⟩
  have hfirst : Leads (Machine.Kept m.heap.cells.size m.heap) (Machine.Enlarges m.heap)
      (liftM (Frame.make code globals locals m.builtins []) >>= Exec.enter : Exec Unit) :=
    Exec.enterMade_leads _ _ _ _ (List.forall_mem_nil _)
  rw [Machine.start]
  split
  next m' h =>
    rw [machine_enter]
    exact (hfirst.results _ _ _ hrest h).toSealed
  next e m' h => exact (hfirst.failures _ _ _ hrest h).toSealed

/-- **All along a run** the machine stays sealed and loses no function. -/
theorem iterate_sealed (h : x.Current) (hx : x.machine.Sealed) (k : Nat) :
    (next^[k] x).machine.Sealed ∧
      x.machine.heap.functions.Extends (next^[k] x).machine.heap.functions := by
  induction k with
  | zero => exact ⟨hx, .refl _⟩
  | succ k ih =>
      obtain ⟨hsealed, hfunctions⟩ := ih
      obtain ⟨hsealed', hfunctions'⟩ := next_sealed (h.iterate k) hsealed
      rw [Function.iterate_succ_apply']
      exact ⟨hsealed', hfunctions.trans hfunctions'⟩

/-- **A cell keeps its content** until the next store in it. -/
theorem iterate_cell (h : x.Current) (hx : x.machine.Sealed) {content : Option Value}
    (hr : x.machine.heap.cells.get? r = some content) {k : Nat}
    (hno : ∀ j < k, ∀ w, (next^[j] x).stores? ≠ some (r, w)) :
    (next^[k] x).machine.heap.cells.get? r = some content := by
  induction k with
  | zero => exact hr
  | succ k ih =>
      have hsame := ih fun j hj => hno j (Nat.lt_succ_of_lt hj)
      have hk := (iterate_sealed h hx k).1
      rw [Function.iterate_succ_apply']
      cases hs : (next^[k] x).stores? with
      | none => exact (next_enlarges (h.iterate k) hk hs).cells r content hsame
      | some p =>
          -- the store is in another cell
          obtain ⟨r', w⟩ := p
          have hne : r' ≠ r := by
            rintro rfl
            exact hno k (Nat.lt_succ_self k) w hs
          rw [(next_of_stores? (h.iterate k) hk hs).2]
          exact (Store.get?_set_of_ne _ _ hne).trans hsame

end Moment

/-- A machine at rest has no cells and refers to none. -/
lemma Machine.create_sealed (limits : Limits) : (Machine.create limits).heap.Sealed where
  lists := .empty
  dicts := .empty
  cells := .empty
  iters := .empty
  functions := .empty
  namespaces := by
    refine Store.All.empty.alloc (Namespace.within_ofList fun b hb => ?_)
    rcases List.mem_append.mp hb with hb | hb
    · obtain ⟨builtin, -, rfl⟩ := List.mem_map.mp hb
      trivial
    · obtain ⟨cls, -, rfl⟩ := List.mem_map.mp hb
      trivial

end StackVM
