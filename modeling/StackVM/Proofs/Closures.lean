/-
Closures. A frame has cells for its locals that nested functions capture, and gets the other
ones from the closure of the function that is called. Nothing ever copies a cell.

* `Frame.make_cells`: the cells of the frame of a call;
* `Moment.BuildsClosure`: a frame makes a function of some of its cells;
* `Moment.Calls`, `Moment.Binds`: a function is called, and its parameters get values;
* `closure_cells_are_shared`: the frame of every later call has the same cells, its other ones
  are new, and a cell gives what was last stored in it.
-/
import StackVM.Proofs.SealedRuns

namespace StackVM

/-! ### Instructions -/

namespace Exec

variable {m m' : Machine} {f : Frame} {below : List Frame} {i : Instruction} {code : CodeObject}

/-- A cell of the frame is pushed. -/
lemma loadClosure_ok (hf : m.frames = f :: below)
    (h : perform code i .loadClosure m = .ok () m') :
    ∃ index r, i.operand.cell? = some index ∧ f.cells[index]? = some r ∧
      m' = m.withTop (f.push (.cell r)) := by
  obtain ⟨index, m₁, h₁, h⟩ := bind_ok_iff.mp h
  obtain ⟨hindex, hm₁⟩ := operand_ok h₁
  obtain ⟨r, m₂, h₂, h⟩ := bind_ok_iff.mp h
  rw [hm₁] at h₂
  obtain ⟨hr, hm₂⟩ := cellAt_ok hf h₂
  rw [hm₂, push, modifyFrame_run hf] at h
  cases h
  exact ⟨index, r, hindex, hr, rfl⟩

/-- The result of an operation on values is pushed. -/
lemma pushResult_run {x : Eval Value} {v : Value} {h : Heap} (hf : m.frames = f :: below)
    (hx : x m.heap = .ok v h) :
    (liftM x >>= push : Exec Unit) m =
      .ok () (Machine.withTop { m with heap := h } (f.push v)) := by
  have hlift : (liftM x : Exec Value) m = .ok v { m with heap := h } :=
    lift_ok_iff.mpr ⟨h, hx, rfl⟩
  have hf' : ({ m with heap := h } : Machine).frames = f :: below := hf
  rw [bind_of_ok hlift, push, modifyFrame_run hf']

/-- The topmost values are put in a tuple. -/
lemma buildTuple_run (code : CodeObject) (hf : m.frames = f :: below)
    (hle : i.arg ≤ f.stack.length) :
    ∃ ident m', perform code i .buildTuple m = .ok () m' ∧ m'.frames = { f with
      stack := .tuple ident (f.stack.take i.arg).reverse :: f.stack.drop i.arg } :: below := by
  have hpop := popN_run hf i.arg
  rw [if_pos hle] at hpop
  have hf' := Machine.frames_withTop hf { f with stack := f.stack.drop i.arg }
  rw [perform, bind_of_ok hpop]
  exact ⟨_, _, pushResult_run hf' rfl, Machine.frames_withTop hf' _⟩

/-- Cells are found among values that are cells. -/
lemma cells_map (rs : List (Ref .cell)) : cells (rs.map .cell) = .ok rs := by
  induction rs with
  | nil => rfl
  | cons r rs ih =>
      rw [List.map_cons, cells, ih]
      rfl

lemma popClosure_ok {c : Code} {ident : Ident} {items rest : List Value}
    {closure : List (Ref .cell)} (hf : m.frames = f :: below)
    (hstack : f.stack = .tuple ident items :: rest)
    (h : popClosure c m = .ok closure m') :
    cells items = .ok closure ∧ closure.length = c.freevars.size ∧
      m' = m.withTop { f with stack := rest } := by
  obtain ⟨v, m₁, h₁, h⟩ := bind_ok_iff.mp h
  obtain ⟨vs, hvs, hm₁⟩ := pop_ok hf h₁
  rw [hstack] at hvs
  cases hvs
  obtain ⟨closure', m₂, h₂, h⟩ := bind_ok_iff.mp h
  obtain ⟨hcells, hm₂⟩ := ofExcept_ok h₂
  split at h
  next hlength =>
    cases h
    exact ⟨hcells, hlength, hm₂.trans hm₁⟩
  next => cases h

/-- A function is made and pushed. -/
lemma pushFunction_ok {c : CodeObject} {arg : Nat} {closure : List (Ref .cell)}
    (hf : m.frames = f :: below) (h : pushFunction c arg closure m = .ok () m') :
    ∃ r fn f', m'.frames = f' :: below ∧ f'.stack.head? = some (.function r) ∧
      m'.heap.functions.get? r = some fn ∧ fn.code = c ∧ fn.closure = closure := by
  obtain ⟨pairs, m₁, h₁, h⟩ := bind_ok_iff.mp h
  have hm₁ := (popN_ok hf h₁).2
  obtain ⟨kwdefaults, m₂, h₂, h⟩ := bind_ok_iff.mp h
  have hf₂ := ((ofExcept_ok h₂).2.trans hm₁) ▸ Machine.frames_withTop hf _
  obtain ⟨defaults, m₃, h₃, h⟩ := bind_ok_iff.mp h
  have hf₃ := (popN_ok hf₂ h₃).2 ▸ Machine.frames_withTop hf₂ _
  rw [bind_of_ok (frame_run hf₃)] at h
  cases h.symm.trans (pushResult_run hf₃ rfl)
  exact ⟨_, _, _, Machine.frames_withTop hf₃ _, rfl, Store.get?_alloc_self _ _, rfl, rfl⟩

/-- A closure is made of the code and the cells on top of the stack. -/
lemma makeClosure_ok {c : CodeObject} {ident : Ident} {rs : List (Ref .cell)} {rest : List Value}
    (hf : m.frames = f :: below) (hstack : f.stack = .code c :: .tuple ident (rs.map .cell) :: rest)
    (h : perform code i .makeClosure m = .ok () m') :
    rs.length = c.code.freevars.size ∧
      ∃ r fn f', m'.frames = f' :: below ∧ f'.stack.head? = some (.function r) ∧
        m'.heap.functions.get? r = some fn ∧ fn.code = c ∧ fn.closure = rs := by
  obtain ⟨v, m₁, h₁, h⟩ := bind_ok_iff.mp h
  obtain ⟨vs, hvs, hm₁⟩ := pop_ok hf h₁
  rw [hstack] at hvs
  cases hvs
  have hf₁ := hm₁ ▸ Machine.frames_withTop hf _
  obtain ⟨closure, m₂, h₂, h⟩ := bind_ok_iff.mp h
  obtain ⟨hclosure, hlength, hm₂⟩ := popClosure_ok hf₁ rfl h₂
  obtain rfl : closure = rs := by
    rw [cells_map] at hclosure
    exact (Except.ok.inj hclosure).symm
  have hf₂ := hm₂ ▸ Machine.frames_withTop hf₁ _
  exact ⟨hlength, pushFunction_ok hf₂ h⟩

/-- A cell with a content is read. -/
lemma loadDeref_run (code : CodeObject) {index : Nat} {r : Ref .cell} {v : Value}
    (hf : m.frames = f :: below) (hindex : i.operand.cell? = some index)
    (hr : f.cells[index]? = some r) (hv : m.heap.cell r = some v) :
    perform code i .loadDeref m = .ok () (m.withTop (f.push v)) := by
  have hheap : heap m = .ok m.heap m := rfl
  show (operand i i.operand.cell? >>= loadCell) m = _
  rw [hindex]
  show loadCell index m = _
  rw [loadCell, bind_of_ok hheap, bind_of_ok (cellAt_run hf hr), hv]
  exact modifyFrame_run hf _

/-- The arguments of a call, as they lie on the stack. -/
def arguments (arg : Nat) (stack : List Value) : Except Cause Args := do
  let (positional, keywords) := splitCounts arg
  let named ← Keyword.ofPairs (stack.take (2 * keywords)).reverse
  return { positional := ((stack.drop (2 * keywords)).take positional).reverse, keywords := named }

lemma arguments_of_ofPairs {arg : Nat} {stack : List Value} {keywords : List Keyword}
    (h : Keyword.ofPairs (stack.take (2 * (splitCounts arg).2)).reverse = .ok keywords) :
    arguments arg stack = .ok
      { positional := ((stack.drop (2 * (splitCounts arg).2)).take (splitCounts arg).1).reverse
        keywords } := by
  show (Keyword.ofPairs (stack.take (2 * (splitCounts arg).2)).reverse >>= _) = _
  rw [h]
  rfl

lemma arguments_within {n arg : Nat} {stack : List Value} {args : Args}
    (hstack : ∀ v ∈ stack, v.Within n) (h : arguments arg stack = .ok args) : args.Within n := by
  cases hk : Keyword.ofPairs (stack.take (2 * (splitCounts arg).2)).reverse with
  | error c =>
      have hfail : arguments arg stack = .error c := by
        show (Keyword.ofPairs (stack.take (2 * (splitCounts arg).2)).reverse >>= _) = _
        rw [hk]
        rfl
      rw [hfail] at h
      cases h
  | ok keywords =>
      rw [arguments_of_ofPairs hk] at h
      cases h
      refine ⟨?_, Keyword.within_ofPairs ?_ hk⟩
      · intro v hv
        exact hstack v (List.mem_of_mem_drop (List.mem_of_mem_take (List.mem_reverse.mp hv)))
      · intro v hv
        exact hstack v (List.mem_of_mem_take (List.mem_reverse.mp hv))

/-- A function that is called gets a frame, whose locals are its parameters with their values. -/
lemma enterFunction_made {fn : Function} {args : Args} (hf : m.frames = f :: below)
    (h : enterFunction fn args m = .ok () m') :
    ∃ bound h₁ callee,
      fn.code.code.signature.bind fn.code.code.name fn.defaults fn.kwdefaults args m.heap =
        .ok bound h₁ ∧
      Frame.make fn.code (some fn.globals) (some h₁.namespaces.next) f.builtins fn.closure
        { h₁ with namespaces := h₁.namespaces.alloc (.ofList bound) } = .ok callee m'.heap ∧
      m'.frames = callee :: f :: below := by
  obtain ⟨bound, m₁, h₁, h⟩ := bind_ok_iff.mp h
  obtain ⟨g₁, hbound, hm₁⟩ := lift_ok_iff.mp h₁
  obtain ⟨locals, m₂, h₂, h⟩ := bind_ok_iff.mp h
  obtain ⟨g₂, hlocals, hm₂⟩ := lift_ok_iff.mp h₂
  rw [hm₁] at hlocals hm₂
  cases hlocals
  have hf₂ : m₂.frames = f :: below := hm₂ ▸ hf
  rw [bind_of_ok (frame_run hf₂)] at h
  obtain ⟨callee, m₃, h₃, h⟩ := bind_ok_iff.mp h
  obtain ⟨g₃, hmake, hm₃⟩ := lift_ok_iff.mp h₃
  rw [hm₂] at hmake
  have hheap : m'.heap = g₃ := by
    rw [enter_heap h, hm₃]
  have hf₃ : m₃.frames = f :: below := by
    rw [hm₃]
    exact hf₂
  exact ⟨bound, g₁, callee, hbound, hheap ▸ hmake, (enter_ok h).2.1.trans (congrArg _ hf₃)⟩

/-- The call of a function. -/
lemma callFunction_made {arg : Nat} {r : Ref .function} (hf : m.frames = f :: below)
    (hcall : f.stack[argumentCount arg]? = some (.function r))
    (h : callFunction arg m = .ok () m') :
    ∃ args bound h₁ callee f', arguments arg f.stack = .ok args ∧
      (m.heap.function r).code.code.signature.bind (m.heap.function r).code.code.name
        (m.heap.function r).defaults (m.heap.function r).kwdefaults args m.heap = .ok bound h₁ ∧
      Frame.make (m.heap.function r).code (some (m.heap.function r).globals)
        (some h₁.namespaces.next) f.builtins (m.heap.function r).closure
        { h₁ with namespaces := h₁.namespaces.alloc (.ofList bound) } = .ok callee m'.heap ∧
      m'.frames = callee :: f' :: below := by
  obtain ⟨pairs, m₁, h₁, h⟩ := bind_ok_iff.mp h
  obtain ⟨hpairs, hm₁⟩ := popN_ok hf h₁
  obtain ⟨keywords, m₂, h₂, h⟩ := bind_ok_iff.mp h
  obtain ⟨hkeywords, hm₂⟩ := ofExcept_ok h₂
  rw [hm₁] at hm₂
  have hf₂ := hm₂ ▸ Machine.frames_withTop hf _
  obtain ⟨positional, m₃, h₃, h⟩ := bind_ok_iff.mp h
  obtain ⟨hpositional, hm₃⟩ := popN_ok hf₂ h₃
  have hf₃ := hm₃ ▸ Machine.frames_withTop hf₂ _
  obtain ⟨v, m₄, h₄, h⟩ := bind_ok_iff.mp h
  obtain ⟨vs, hvs, hm₄⟩ := pop_ok hf₃ h₄
  have hf₄ := hm₄ ▸ Machine.frames_withTop hf₃ _
  have hheap : m₄.heap = m.heap := by
    rw [hm₄, hm₃, hm₂]
    rfl
  -- the callable lies under the arguments
  obtain rfl : v = .function r := by
    have hdrop : f.stack.drop (argumentCount arg) = v :: vs := by
      rw [← hvs, List.drop_drop]
      rfl
    rw [← List.head?_drop, hdrop] at hcall
    exact Option.some.inj hcall
  have hargs : arguments arg f.stack = .ok { positional, keywords } := by
    rw [hpairs] at hkeywords
    rw [hpositional]
    exact arguments_of_ofPairs hkeywords
  have hrun : enterFunction (m.heap.function r) { positional, keywords } m₄ = .ok () m' := by
    rw [← hheap]
    exact h
  obtain ⟨bound, g₁, callee, hbound, hmake, hframes⟩ := enterFunction_made hf₄ hrun
  rw [hheap] at hbound
  exact ⟨_, bound, g₁, callee, _, hargs, hbound, hmake, hframes⟩

end Exec

/-! ### Calls and their cells -/

/-- The cells that a frame has for its captured locals are new: they differ from each other and
from all cells of the heap `h` before the call. On the heap `h'` after it each of them holds
the argument of the same name, if there is one. -/
structure Frame.HasFreshCells (f : Frame) (bound : List (String × Value)) (h h' : Heap) :
    Prop where
  distinct : (f.cells.take f.code.code.cellvars.size).Nodup
  fresh : ∀ (j : Nat) name, f.code.code.cellvars[j]? = some name →
    ∃ r, f.cells[j]? = some r ∧ h.cells.size ≤ r.index ∧
      h'.cells.get? r = some ((Namespace.ofList bound).get? name)

/-- The cells of the frame of a call. -/
lemma Frame.make_cells {code : CodeObject} {globals builtins : Ref .namespace}
    {bound : List (String × Value)} {closure : List (Ref .cell)} {h h' : Heap} {f : Frame}
    (hmake : Frame.make code (some globals) (some h.namespaces.next) builtins closure
      { h with namespaces := h.namespaces.alloc (.ofList bound) } = .ok f h') :
    f.code = code ∧ f.HasFreshCells bound h h' ∧
      ∀ j < code.code.freevars.size, ∀ r, closure[j]? = some r →
        f.cells[code.code.cellvars.size + j]? = some r := by
  rw [Frame.make_run] at hmake
  extract_lets contents free lacking own rest at hmake
  cases hmake
  have hcontents : contents.length = code.code.cellvars.size := by
    rw [List.length_map, Array.length_toList]
  have hown : own.length = code.code.cellvars.size := by
    rw [List.length_map, List.length_range', hcontents]
  refine ⟨rfl, ⟨?_, ?_⟩, ?_⟩
  · show ((own ++ free ++ rest).take code.code.cellvars.size).Nodup
    rw [List.append_assoc, ← hown, List.take_left]
    exact List.Nodup.map (fun a b hab => Ref.mk.inj hab) List.nodup_range'
  · intro j name hname
    have hj : j < code.code.cellvars.size := (Array.getElem?_eq_some_iff.mp hname).1
    refine ⟨⟨h.cells.size + j⟩, ?_, Nat.le_add_right _ _, ?_⟩
    · show (own ++ free ++ rest)[j]? = _
      rw [List.append_assoc, List.getElem?_append_left (hown ▸ hj), List.getElem?_map,
        List.getElem?_range' (hcontents ▸ hj)]
      simp
    · show (h.cells.addAll (contents ++ lacking)).get? ⟨h.cells.size + j⟩ = _
      rw [Store.get?_addAll, List.getElem?_append_left (hcontents ▸ hj), List.getElem?_map,
        Array.getElem?_toList, hname]
      show some (Namespace.get? ((Store.get? _ h.namespaces.next).getD .empty) name) = _
      rw [Store.get?_alloc_self]
      rfl
  · intro j hj r hr
    show (own ++ free ++ rest)[code.code.cellvars.size + j]? = _
    have hfree : free[j]? = some r := by
      rw [List.getElem?_take_of_lt hj]
      exact hr
    have hlt : j < free.length := (List.getElem?_eq_some_iff.mp hfree).1
    rw [List.append_assoc, List.getElem?_append_right (hown ▸ Nat.le_add_right _ _), hown,
      Nat.add_sub_cancel_left, List.getElem?_append_left hlt]
    exact hfree

/-! ### Moments -/

namespace Moment

variable {x y : Moment} {l l' : Loop} {f : Frame} {below : List Frame} {op : Opcode}
  {i : Instruction}

/-- The instruction that is to be executed, with its opcode. -/
structure Executes (x : Moment) (op : Opcode) (i : Instruction) : Prop where
  decoded : x.instruction? = some i
  opcode : i.opcode = some op

lemma Executes.inFrame (h : x.Executes op i) (hx : x.Current) :
    ∃ l f below, x = .stepping l ∧ x.frames = f :: below ∧ l.InFrame f below ∧
      f.code.code.decode f.ip = .ok i := by
  obtain ⟨l, f, below, rfl, hf, hd⟩ := exists_of_instruction? h.decoded
  obtain ⟨f', below', hin⟩ := hx
  obtain ⟨rfl, rfl⟩ : f = f' ∧ below = below' := List.cons.inj (hf.symm.trans hin.frames)
  exact ⟨l, f, below, rfl, hf, hin, hd⟩

/-- An instruction after which the frame goes on has been performed. -/
lemma Executes.performed (h : x.Executes op i) (hop : op ≠ .endFinally) (hx : x.Current)
    (hnext : x.next = .stepping l') :
    ∃ l f below, x = .stepping l ∧ x.frames = f :: below ∧ l.InFrame f below ∧
      Exec.perform l.code i op (l.fetched i) = .ok () l'.machine := by
  obtain ⟨l, f, below, rfl, hf, hin, hd⟩ := h.inFrame hx
  have hrun := execute_of_next_stepping hin hd hnext
  rw [Exec.execute, h.opcode] at hrun
  exact ⟨l, f, below, rfl, hf, hin, Exec.perform_of_executeOp hop hrun⟩

/-- After an instruction that is performed the frame goes on. -/
lemma next_of_perform {m' : Machine} {f' : Frame} {below' : List Frame} (h : l.InFrame f below)
    (hd : f.code.code.decode f.ip = .ok i) (hop : i.opcode = some op)
    (hplain : Exec.executeOp l.code i op = Exec.perform l.code i op >>= fun _ => pure none)
    (hperform : Exec.perform l.code i op (l.fetched i) = .ok () m')
    (hf' : m'.frames = f' :: below') :
    ∃ l', next (.stepping l) = .stepping l' ∧ l'.machine = m' := by
  have hrun : Exec.execute l.code i (l.fetched i) = .ok none m' := by
    rw [Exec.execute, hop]
    show Exec.executeOp l.code i op (l.fetched i) = _
    rw [hplain, bind_of_ok hperform]
    rfl
  rw [next_stepping_decoded h.frames (h.code ▸ hd), Machine.dispatch, hrun]
  dsimp only [Loop.resume]
  split
  · exact ⟨_, rfl, rfl⟩
  · rw [Loop.enter_of_cons hf']
    exact ⟨_, rfl, rfl⟩

/-- From `x` to `y` the current frame pushes those of its cells that have the indices. -/
inductive LoadsCells : Moment → List Nat → Moment → Prop where
  | nil (x : Moment) : LoadsCells x [] x
  | cons {x y : Moment} {i : Instruction} {index : Nat} {indices : List Nat}
      (executes : x.Executes .loadClosure i) (operand : i.operand.cell? = some index)
      (rest : LoadsCells x.next indices y) : LoadsCells x (index :: indices) y

lemma LoadsCells.stepping {indices : List Nat} (h : x.LoadsCells indices y)
    (hy : ∃ l, y = .stepping l) : ∃ l, x = .stepping l := by
  cases h with
  | nil => exact hy
  | cons executes _ _ =>
      obtain ⟨l, -, -, hl, -⟩ := exists_of_instruction? executes.decoded
      exact ⟨l, hl⟩

/-- The cells are pushed in the order of the indices. -/
lemma LoadsCells.pushed {indices : List Nat} (h : x.LoadsCells indices y)
    (hy : ∃ l, y = .stepping l) (hx : x.Current) (hf : x.frames = f :: below) :
    ∃ (rs : List (Ref .cell)) (f' : Frame), rs.map some = indices.map (f.cells[·]?) ∧
      y.frames = f' :: below ∧ f'.stack = (rs.map Value.cell).reverse ++ f.stack := by
  induction h generalizing f with
  | nil x => exact ⟨[], f, rfl, hf, rfl⟩
  | @cons x y i index indices executes operand rest ih =>
      obtain ⟨l', hnext⟩ := rest.stepping hy
      obtain ⟨l, f₀, below₀, rfl, hf₀, hin, hrun⟩ := executes.performed (by decide) hx hnext
      obtain ⟨rfl, rfl⟩ : f = f₀ ∧ below = below₀ := List.cons.inj (hf.symm.trans hf₀)
      obtain ⟨index', r, hindex, hr, hm'⟩ := Exec.loadClosure_ok (hin.frames_fetched i) hrun
      obtain rfl : index = index' := Option.some.inj (operand.symm.trans hindex)
      have hf' : (next (.stepping l)).frames = (f.fetched i).push (.cell r) :: below := by
        rw [hnext, frames, machine, hm']
        exact Machine.frames_withTop (hin.frames_fetched i) _
      obtain ⟨rs, f', hrs, hy', hstack⟩ := ih hy (hx.transition.current hx) hf'
      refine ⟨r :: rs, f', ?_, hy', ?_⟩
      · rw [List.map_cons, List.map_cons, hrs]
        exact congrArg (· :: _) hr.symm
      · rw [hstack, List.map_cons, List.reverse_cons, List.append_assoc]
        rfl

/-- From `x` to `y` the current frame makes a closure of the code and of those of its cells that
have the indices: it pushes the cells and puts them in a tuple, and from the tuple and the code
the function `r` is made. -/
inductive BuildsClosure (x : Moment) (indices : List Nat) (code : CodeObject)
    (r : Ref .function) : Moment → Prop where
  | intro {y : Moment} {i j : Instruction} {tuple : Value} {rest : List Value} {k : Nat}
      (loads : x.LoadsCells indices y) (builds : y.Executes .buildTuple i)
      (count : i.arg = indices.length) (built : y.next.operands.head? = some tuple)
      (makes : (next^[k] y.next).Executes .makeClosure j)
      (operands : (next^[k] y.next).operands = .code code :: tuple :: rest)
      (goes : ∃ l, (next^[k] y.next).next = .stepping l)
      (made : (next^[k] y.next).next.operands.head? = some (.function r)) :
      BuildsClosure x indices code r (next^[k] y.next).next

lemma LoadsCells.later {indices : List Nat} (h : x.LoadsCells indices y) :
    ∃ k, y = next^[k] x := by
  induction h with
  | nil => exact ⟨0, rfl⟩
  | cons _ _ _ ih =>
      obtain ⟨k, rfl⟩ := ih
      exact ⟨k + 1, rfl⟩

lemma LoadsCells.current {indices : List Nat} (h : x.LoadsCells indices y) (hx : x.Current) :
    y.Current := by
  obtain ⟨k, rfl⟩ := h.later
  exact hx.iterate k

lemma BuildsClosure.later {indices : List Nat} {code : CodeObject} {r : Ref .function}
    (h : x.BuildsClosure indices code r y) : ∃ k, y = next^[k] x := by
  cases h with
  | @intro y _ _ _ _ k loads =>
      obtain ⟨j, rfl⟩ := loads.later
      refine ⟨k + 1 + 1 + j, ?_⟩
      rw [Function.iterate_add_apply, Function.iterate_succ_apply, Function.iterate_succ_apply']

/-- The tuple holds the cells. -/
lemma LoadsCells.built {indices : List Nat} {tuple : Value} (h : x.LoadsCells indices y)
    (hbuilds : y.Executes .buildTuple i) (hcount : i.arg = indices.length)
    (hbuilt : y.next.operands.head? = some tuple) (hx : x.Current)
    (hf : x.frames = f :: below) :
    ∃ (rs : List (Ref .cell)) (ident : Ident), rs.map some = indices.map (f.cells[·]?) ∧
      tuple = .tuple ident (rs.map .cell) := by
  obtain ⟨l₀, -, -, hl₀, -⟩ := exists_of_instruction? hbuilds.decoded
  obtain ⟨rs, f', hrs, hf', hstack⟩ := h.pushed ⟨l₀, hl₀⟩ hx hf
  obtain ⟨l, f₀, below₀, rfl, hf₀, hin, hd⟩ := hbuilds.inFrame (h.current hx)
  obtain ⟨rfl, rfl⟩ : f' = f₀ ∧ below = below₀ := List.cons.inj (hf'.symm.trans hf₀)
  have hlength : (rs.map Value.cell).reverse.length = i.arg := by
    have := congrArg List.length hrs
    simp only [List.length_map] at this
    rw [List.length_reverse, List.length_map, this, hcount]
  have hle : i.arg ≤ (f'.fetched i).stack.length := by
    show i.arg ≤ f'.stack.length
    rw [hstack, List.length_append, hlength]
    exact Nat.le_add_right _ _
  obtain ⟨ident, m', hrun, hframes⟩ := Exec.buildTuple_run l.code
    (hin.frames_fetched i) hle
  obtain ⟨l', hnext, rfl⟩ := next_of_perform hin hd hbuilds.opcode rfl hrun hframes
  have htake : ((f'.fetched i).stack.take i.arg).reverse = rs.map .cell := by
    show (f'.stack.take i.arg).reverse = _
    rw [hstack, ← hlength, List.take_left, List.reverse_reverse]
  rw [hnext, operands_of_frames (x := .stepping l') hframes, htake] at hbuilt
  exact ⟨rs, ident, hrs, (Option.some.inj hbuilt).symm⟩

/-- The function that is made has the cells. -/
lemma BuildsClosure.function {indices : List Nat} {code : CodeObject} {r : Ref .function}
    (h : x.BuildsClosure indices code r y) (hx : x.Current) (hf : x.frames = f :: below) :
    ∃ (rs : List (Ref .cell)) (fn : Function), rs.map some = indices.map (f.cells[·]?) ∧
      rs.length = code.code.freevars.size ∧
      y.machine.heap.functions.get? r = some fn ∧ fn.code = code ∧ fn.closure = rs := by
  cases h with
  | @intro y i j tuple rest k loads builds count built makes hoperands goes made =>
      obtain ⟨rs, ident, hrs, rfl⟩ := loads.built builds count built hx hf
      have hy := loads.current hx
      have hz := (hy.transition.current hy).iterate k
      obtain ⟨l', hnext⟩ := goes
      obtain ⟨l, f', below', hl, hf', hin, hrun⟩ := makes.performed (by decide) hz hnext
      rw [operands_of_frames hf'] at hoperands
      obtain ⟨hlength, r', fn, g, hframes, hhead, hfn, hcode, hclosure⟩ :=
        Exec.makeClosure_ok (hin.frames_fetched j) hoperands hrun
      rw [hnext, operands_of_frames (x := .stepping l') hframes, hhead] at made
      cases made
      refine ⟨rs, fn, hrs, hlength, ?_, hcode, hclosure⟩
      rw [hnext]
      exact hfn

/-- At `x` the function `r` is called, and the frame `callee` is entered. -/
structure Calls (x : Moment) (i : Instruction) (r : Ref .function) (callee : Frame) : Prop where
  executes : x.Executes .callFunction i
  callable : x.operands[Exec.argumentCount i.arg]? = some (.function r)
  goes : ∃ l, x.next = .stepping l
  entered : x.next.frames.head? = some callee

/-- The call of the function `r` binds its arguments to the parameters. -/
def Binds (x : Moment) (i : Instruction) (r : Ref .function) (bound : List (String × Value)) :
    Prop :=
  let fn := x.machine.heap.function r
  ∃ args h, Exec.arguments i.arg x.operands = .ok args ∧
    fn.code.code.signature.bind fn.code.code.name fn.defaults fn.kwdefaults args x.machine.heap =
      .ok bound h

/-- The cells of a frame that is entered. -/
lemma Calls.cells {r : Ref .function} {callee : Frame} (h : x.Calls i r callee) (hx : x.Current)
    (hsealed : x.machine.Sealed) :
    callee.code = (x.machine.heap.function r).code ∧
      (∃ bound, x.Binds i r bound ∧
        callee.HasFreshCells bound x.machine.heap x.next.machine.heap) ∧
      ∀ j < callee.code.code.freevars.size, ∀ cell,
        (x.machine.heap.function r).closure[j]? = some cell →
        callee.cells[callee.code.code.cellvars.size + j]? = some cell := by
  obtain ⟨l', hnext⟩ := h.goes
  obtain ⟨l, f, below, rfl, hf, hin, hrun⟩ := h.executes.performed (by decide) hx hnext
  have hcallable := h.callable
  rw [operands_of_frames hf] at hcallable
  obtain ⟨args, bound, h₁, callee', f', hargs, hbound, hmake, hframes⟩ :=
    Exec.callFunction_made (hin.frames_fetched i) hcallable hrun
  have hentered := h.entered
  rw [hnext, frames, machine, hframes] at hentered
  cases hentered
  -- the binding of arguments has made no cell
  have hstack := (hsealed.frames f (hin.frames ▸ List.mem_cons_self)).stack
  have hfn := hsealed.heap.function r
  have hcells : h₁.cells = l.machine.heap.cells :=
    ((Signature.bind_keeps hfn.defaults hfn.kwdefaults
      (Exec.arguments_within hstack hargs)).results _ _ _ hsealed.heap.kept hbound).1.cells
  obtain ⟨hcode, hfresh, hclosure⟩ := Frame.make_cells hmake
  refine ⟨hcode, ⟨bound, ?_, ⟨hfresh.distinct, ?_⟩⟩, ?_⟩
  · exact ⟨args, h₁, operands_of_frames hf ▸ hargs, hbound⟩
  · rw [hnext]
    show ∀ (j : Nat) name, _ → ∃ r, _ ∧ l.machine.heap.cells.size ≤ _ ∧ _
    rw [← hcells]
    exact hfresh.fresh
  · rw [hcode]
    exact hclosure

/-- A constant is pushed. -/
lemma Executes.pushed_const (h : x.Executes .loadConst i) (hx : x.Current)
    (hnext : ∃ l, x.next = .stepping l) : ∃ v, x.next.operands = v :: x.operands := by
  obtain ⟨l', hnext⟩ := hnext
  obtain ⟨l, f, below, rfl, hf, hin, hrun⟩ := h.performed (by decide) hx hnext
  have hf₁ := hin.frames_fetched i
  obtain ⟨c, m₁, h₁, hrun⟩ := bind_ok_iff.mp hrun
  obtain ⟨-, hm₁⟩ := Exec.operand_ok h₁
  obtain ⟨v, m₂, h₂, hpush⟩ := bind_ok_iff.mp hrun
  obtain ⟨h', -, hm₂⟩ := Exec.lift_ok_iff.mp h₂
  have hf₂ : m₂.frames = f.fetched i :: below := by
    rw [hm₂, hm₁]
    exact hf₁
  rw [Exec.push, Exec.modifyFrame_run hf₂] at hpush
  obtain ⟨-, hm'⟩ := EStateM.Result.ok.inj hpush
  have hf' : l'.machine.frames = (f.fetched i).push v :: below :=
    hm' ▸ Machine.frames_withTop hf₂ _
  rw [hnext, operands_of_frames hf, operands_of_frames (x := .stepping l') hf']
  exact ⟨v, rfl⟩

/-- A cell with a content is read. -/
lemma next_of_loads {r : Ref .cell} {v : Value} (hx : x.Current)
    (hr : x.cell? .loadDeref = some r) (hv : x.machine.heap.cells.get? r = some (some v)) :
    (∃ l, x.next = .stepping l) ∧ x.next.operands = v :: x.operands := by
  obtain ⟨l, f, below, i, index, rfl, hin, hd, hop, hindex, hr⟩ := exists_of_cell? hx hr
  have hfetched := hin.frames_fetched i
  have hcell : (l.fetched i).heap.cell r = some v := by
    rw [Heap.cell]
    exact congrArg Option.join hv
  have hrun := Exec.loadDeref_run l.code hfetched hindex hr hcell
  have hf' := Machine.frames_withTop hfetched ((f.fetched i).push v)
  obtain ⟨l', hnext, hm'⟩ := next_of_perform hin hd hop rfl hrun hf'
  refine ⟨⟨l', hnext⟩, ?_⟩
  rw [hnext, operands_of_frames (x := .stepping l') (hm' ▸ hf'),
    operands_of_frames (x := .stepping l) hin.frames]
  rfl

/-- What is stored in a cell is in it. -/
lemma cell_of_stores? {r : Ref .cell} {v : Value} (hx : x.Current) (hsealed : x.machine.Sealed)
    (hs : x.stores? = some (r, v)) : x.next.machine.heap.cells.get? r = some (some v) := by
  have hlt : r.index < x.machine.heap.cells.size := by
    obtain ⟨l, f, below, i, index, vs, rfl, hin, -, -, -, hr, -⟩ := exists_of_stores? hx hs
    exact (hsealed.frames f (hin.frames ▸ List.mem_cons_self)).cells r (List.mem_of_getElem? hr)
  rw [(next_of_stores? hx hsealed hs).2]
  exact Store.get?_set_self _ _ hlt

/-- A moment of a run that starts from a sealed heap. The heap of a machine at rest is sealed
(`Machine.create_sealed`), and so is the one that a run leaves (`iterate_sealed`). -/
def InSealedRun (x : Moment) : Prop :=
  ∃ (m : Machine) (code : CodeObject) (globals locals : Option (Ref .namespace)) (k : Nat),
    m.heap.Sealed ∧ x = next^[k] (ofTurn (m.start code globals locals))

lemma InSealedRun.current (h : x.InSealedRun) : x.Current := by
  obtain ⟨m, code, globals, locals, k, -, rfl⟩ := h
  exact (reachable_iterate (.start m code globals locals) k).current

lemma InSealedRun.sealed (h : x.InSealedRun) : x.machine.Sealed := by
  obtain ⟨m, code, globals, locals, k, hm, rfl⟩ := h
  exact (iterate_sealed (Reachable.start m code globals locals).current
    (start_sealed hm code globals locals) k).1

lemma InSealedRun.iterate (h : x.InSealedRun) (n : Nat) : (next^[n] x).InSealedRun := by
  obtain ⟨m, code, globals, locals, k, hm, rfl⟩ := h
  exact ⟨m, code, globals, locals, n + k, hm, (Function.iterate_add_apply next n k _).symm⟩

/-- In every later call the function has the cells it was made of. -/
lemma BuildsClosure.shared {indices : List Nat} {code : CodeObject} {r : Ref .function} {k : Nat}
    {callee : Frame} (h : x.BuildsClosure indices code r y) (hx : x.InSealedRun)
    (hf : x.frames = f :: below) (hcalls : (next^[k] y).Calls i r callee) :
    callee.code = code ∧ indices.length = code.code.freevars.size ∧
      ∀ (j index : Nat), indices[j]? = some index → ∃ cell, f.cells[index]? = some cell ∧
        callee.cells[code.code.cellvars.size + j]? = some cell := by
  obtain ⟨rs, fn, hrs, hlength, hfn, hcode, hclosure⟩ := h.function hx.current hf
  obtain ⟨n, rfl⟩ := h.later
  have hy := hx.iterate n
  have hz := hy.iterate k
  -- the function is still the one that was made
  have hsame : (next^[k] (next^[n] x)).machine.heap.function r = fn := by
    rw [Heap.function, (iterate_sealed hy.current hy.sealed k).2 r fn hfn]
    rfl
  obtain ⟨hcallee, -, hshared⟩ := hcalls.cells hz.current hz.sealed
  rw [hsame, hcode] at hcallee
  rw [hsame, hclosure] at hshared
  have hindices : indices.length = rs.length := by
    simpa only [List.length_map] using congrArg List.length hrs.symm
  refine ⟨hcallee, hindices.trans hlength, ?_⟩
  intro j index hj
  have hlt : j < rs.length := hindices ▸ (List.getElem?_eq_some_iff.mp hj).1
  have hcell : rs[j]? = some rs[j] := List.getElem?_eq_getElem hlt
  have hj' := congrArg (·[j]?) hrs
  simp only [List.getElem?_map, hcell, hj, Option.map_some, Option.some.injEq] at hj'
  refine ⟨rs[j], hj'.symm, ?_⟩
  rw [← hcallee]
  refine hshared j ?_ _ hcell
  rw [hcallee, ← hlength]
  exact hlt

end Moment

/-! ### Closures -/

open Moment in
/-- **Closures share their cells.** In every run from a sealed heap:

* a function that a frame makes of its cells has just these cells in every later call, after
  those for its own captured locals;
* the cells for the captured locals of a function that is called are new, and hold its arguments;
* a cell gives what was last stored in it, whichever frames stored it and load it. -/
theorem closure_cells_are_shared {x : Moment} (hx : x.InSealedRun) :
    (∀ f below indices code r y k i callee, x.frames = f :: below →
      x.BuildsClosure indices code r y → (next^[k] y).Calls i r callee →
      callee.code = code ∧ indices.length = code.code.freevars.size ∧
        ∀ j index, indices[j]? = some index → ∃ cell, f.cells[index]? = some cell ∧
          callee.cells[code.code.cellvars.size + j]? = some cell) ∧
      (∀ i r callee, x.Calls i r callee → ∃ bound, x.Binds i r bound ∧
        callee.HasFreshCells bound x.machine.heap x.next.machine.heap) ∧
      ∀ cell v k, x.stores? = some (cell, v) →
        (∀ j < k, ∀ w, (next^[j] x.next).stores? ≠ some (cell, w)) →
        (next^[k] x.next).cell? .loadDeref = some cell →
        (∃ l, (next^[k] x.next).next = .stepping l) ∧
          (next^[k] x.next).next.operands = v :: (next^[k] x.next).operands := by
  refine ⟨?_, ?_, ?_⟩
  · intro f below indices code r y k i callee hf hbuilds hcalls
    exact hbuilds.shared hx hf hcalls
  · intro i r callee hcalls
    exact (hcalls.cells hx.current hx.sealed).2.1
  · intro cell v k hs hno hload
    have hnext : x.next.InSealedRun := hx.iterate 1
    have hheld := iterate_cell hnext.current hnext.sealed
      (cell_of_stores? hx.current hx.sealed hs) hno
    exact next_of_loads (hnext.current.iterate k) hload hheld

/-- A program stores a value in its cell, makes a function that captures the cell and calls it.
The function has the cell of the program after a new one for its own captured parameter, and
loads the value. -/
theorem nested_function_shares_cell :
    let code : CodeObject :=
      ⟨default, { Code.empty "f" with
        bytecode := #[100, 0, 0, 137, 0, 0, 135, 0, 0, 102, 1, 0, 100, 1, 0, 134, 0, 0,
          100, 2, 0, 131, 1, 0, 83]
        consts := #[.int 7, .code { Code.empty "g" with
          bytecode := #[136, 1, 0, 83], varnames := #["a"], argCount := 1, cellvars := #["a"]
          freevars := #["n"] }, .int 5]
        cellvars := #["n"] }⟩
    let run (k : Nat) :=
      Moment.next^[k] (.ofTurn ((Machine.create {}).start code none none))
    ∃ f g r i callee cell v bound, (run 2).InSealedRun ∧ (run 2).frames = [f] ∧
      (run 2).BuildsClosure [0] g r (run 6) ∧ (run 7).Calls i r callee ∧
      f.cells[0]? = some cell ∧ callee.cells[1]? = some cell ∧ (run 7).Binds i r bound ∧
      callee.HasFreshCells bound (run 7).machine.heap (run 8).machine.heap ∧
      (run 1).stores? = some (cell, v) ∧ (run 8).cell? .loadDeref = some cell ∧
      (run 9).operands = v :: (run 8).operands := by
  intro code run
  have hmade : ((run 2).frames.map Frame.cells = [[⟨0⟩]] ∧
      (run 2).instruction?.map (fun i => (i.opcode, i.operand.cell?)) =
        some (some .loadClosure, some 0)) ∧
      ((run 3).instruction?.map (fun i => (i.opcode, i.arg)) = some (some .buildTuple, 1) ∧
        (run 4).operands.length = 1) ∧
      ((run 4).instruction?.map Instruction.opcode = some (some .loadConst) ∧
        (∃ l, run 5 = .stepping l) ∧ (run 5).operands.map Value.typeTag = [.code, .tuple]) ∧
      ((run 5).instruction?.map Instruction.opcode = some (some .makeClosure) ∧
        (∃ l, run 6 = .stepping l) ∧ (run 6).operands.map Value.typeTag = [.function]) := by
    decide +kernel +revert
  have hcalled : ((run 6).instruction?.map Instruction.opcode = some (some .loadConst) ∧
        ∃ l, run 7 = .stepping l) ∧
      ((run 7).instruction?.map (fun i => (i.opcode, i.arg)) = some (some .callFunction, 1) ∧
        (∃ l, run 8 = .stepping l) ∧
        (run 8).frames.map (fun f => f.code.code.cellvars.size) = [1, 1]) ∧
      (run 1).stores?.map Prod.fst = some ⟨0⟩ ∧ (run 8).cell? .loadDeref = some ⟨0⟩ ∧
      ∀ j < 6, (run (j + 2)).stores?.isNone := by
    decide +kernel +revert
  obtain ⟨⟨hcells, hload⟩, ⟨hbuild, hone⟩, ⟨hconst, hgoes, htags⟩, hmake, hgoes', htag⟩ := hmade
  obtain ⟨⟨hconst', hgoes''⟩, ⟨hcall, hentered, hsizes⟩, hstore, hderef, hnone⟩ := hcalled
  have hstep (k : Nat) : run (k + 1) = (run k).next := Function.iterate_succ_apply' _ _ _
  have hrun (k : Nat) : (run k).InSealedRun :=
    ⟨Machine.create {}, code, none, none, k, Machine.create_sealed {}, rfl⟩
  have hlater (j k : Nat) : Moment.next^[j] (run k) = run (j + k) :=
    (Function.iterate_add_apply Moment.next j k _).symm
  -- the function is made of the cell
  obtain ⟨i₂, hi₂, hload⟩ := Option.map_eq_some_iff.mp hload
  obtain ⟨hop₂, hindex⟩ := Prod.mk.inj hload
  obtain ⟨i₃, hi₃, hbuild⟩ := Option.map_eq_some_iff.mp hbuild
  obtain ⟨hop₃, harg₃⟩ := Prod.mk.inj hbuild
  obtain ⟨i₄, hi₄, hop₄⟩ := Option.map_eq_some_iff.mp hconst
  obtain ⟨i₅, hi₅, hop₅⟩ := Option.map_eq_some_iff.mp hmake
  obtain ⟨tuple, htuple⟩ := List.length_eq_one_iff.mp hone
  obtain ⟨v₅, hv₅⟩ := Moment.Executes.pushed_const ⟨hi₄, hop₄⟩ (hrun 4).current hgoes
  have hv₅ : (run 5).operands = [v₅, tuple] := hv₅.trans (congrArg (v₅ :: ·) htuple)
  rw [hv₅] at htags
  obtain ⟨g, rfl⟩ : ∃ g, v₅ = .code g := by
    cases v₅ with
    | code g => exact ⟨g, rfl⟩
    | _ => cases htags
  obtain ⟨v₆, hv₆⟩ : ∃ v₆, (run 6).operands = [v₆] := by
    rw [← List.length_eq_one_iff, ← List.length_map (f := Value.typeTag), htag]
    rfl
  rw [hv₆] at htag
  obtain ⟨r, rfl⟩ : ∃ r, v₆ = .function r := by
    cases v₆ with
    | function r => exact ⟨r, rfl⟩
    | _ => cases htag
  have hbuilds : (run 2).BuildsClosure [0] g r (run 6) := by
    have h₃ : (run 2).LoadsCells [0] (run 3) := by
      rw [hstep 2]
      exact .cons ⟨hi₂, hop₂⟩ hindex (.nil _)
    have hbuilt : (run 3).next.operands.head? = some tuple := by
      rw [← hstep 3, htuple]
      rfl
    have h₅ : Moment.next^[1] (run 3).next = run 5 := by
      rw [← hstep 3]
      exact hlater 1 4
    have hmakes : (run 5).Executes .makeClosure i₅ := ⟨hi₅, hop₅⟩
    have hmade : (run 5).next.operands.head? = some (.function r) := by
      rw [← hstep 5, hv₆]
      rfl
    rw [hstep 5] at hgoes' ⊢
    rw [← h₅] at hmakes hv₅ hgoes' hmade ⊢
    exact .intro h₃ ⟨hi₃, hop₃⟩ harg₃ hbuilt hmakes hv₅ hgoes' hmade
  -- it is called with an argument on top of it
  obtain ⟨i₆, hi₆, hop₆⟩ := Option.map_eq_some_iff.mp hconst'
  obtain ⟨i₇, hi₇, hcall⟩ := Option.map_eq_some_iff.mp hcall
  obtain ⟨hop₇, harg₇⟩ := Prod.mk.inj hcall
  obtain ⟨v₇, hv₇⟩ := Moment.Executes.pushed_const ⟨hi₆, hop₆⟩ (hrun 6).current hgoes''
  have hv₇ : (run 7).operands = [v₇, .function r] := hv₇.trans (congrArg (v₇ :: ·) hv₆)
  obtain ⟨callee, rest, hframes, hsize, -⟩ := List.map_eq_cons_iff.mp hsizes
  have hcalls : (run 7).Calls i₇ r callee := by
    refine ⟨⟨hi₇, hop₇⟩, ?_, hentered, ?_⟩
    · rw [hv₇, harg₇]
      rfl
    · rw [← hstep 7, hframes]
      rfl
  -- the cell is that of the program
  obtain ⟨f, below, hf, hfcells, hbelow⟩ := List.map_eq_cons_iff.mp hcells
  rw [List.map_eq_nil_iff.mp hbelow] at hf
  have hcell : f.cells[0]? = some ⟨0⟩ := by
    rw [hfcells]
    rfl
  obtain ⟨hcode, -, hshared⟩ := (closure_cells_are_shared (hrun 2)).1 f [] [0] g r (run 6) 1 i₇
    callee hf hbuilds (hlater 1 6 ▸ hcalls)
  obtain ⟨cell, hcell', hcallee⟩ := hshared 0 0 rfl
  rw [hcell] at hcell'
  cases hcell'
  rw [← hcode, hsize] at hcallee
  obtain ⟨bound, hbound, hfresh⟩ := (closure_cells_are_shared (hrun 7)).2.1 i₇ r callee hcalls
  rw [← hstep 7] at hfresh
  obtain ⟨⟨cell, v⟩, hstore, hfst⟩ := Option.map_eq_some_iff.mp hstore
  cases hfst
  have hlast := (closure_cells_are_shared (hrun 1)).2.2 ⟨0⟩ v 6 hstore
  rw [← hstep 1, hlater 6 2] at hlast
  refine ⟨f, g, r, i₇, callee, ⟨0⟩, v, bound, hrun 2, hf, hbuilds, hcalls, hcell, hcallee, hbound,
    hfresh, hstore, hderef, (hlast ?_ hderef).2⟩
  intro j hj w hw
  rw [hlater j 2] at hw
  have := hnone j hj
  rw [hw] at this
  cases this

end StackVM
