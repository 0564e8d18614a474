/-
In-place operators against binary ones. Both come to the same, but for a list on the left of `+=`:
that list grows by the items of the right operand, where the binary operator makes a new list.

* `Exec.Agree`: two executions come to the same value, or to exceptions of one class;
* `Value.arith_agree`: a name for the operator in fault messages is all that differs;
* `Heap.Yields`: the items that an iterable value gives; `Heap.Reads`: a value that reads a list;
* `Value.collect_of_le`, `Value.collect_of_lt`: collecting them, and its limit;
* `Value.collect_of_reads`: what is collected from a list is what it holds before it grows;
* `Exec.Extension`: a list grows, or is too large and stays; `Value.extend_of_le`,
  `Value.extend_of_lt`;
* `inplace_agrees_with_binary`: **all operators and operands**.
-/
import Mathlib
import StackVM.Proofs.Operands
import StackVM.Proofs.Sequences

namespace StackVM

/-! ### Operators that differ by name -/

/-- Two executions come to the same value, or to exceptions of one class, and leave one machine. -/
inductive Exec.Agree : EStateM.Result Fault Machine (Option Signal) →
    EStateM.Result Fault Machine (Option Signal) → Prop
  | value (m : Machine) : Agree (.ok none m) (.ok none m)
  | exception {c c' : Cause} (m : Machine) (h : c.cls = c'.cls) :
      Agree (.error (.cause c) m) (.error (.cause c') m)

namespace Value

/-- The name of an operator is only used in a fault message. -/
lemma arith_agree (op : ArithOp) (symbol symbol' : String) (l r : Value) (h : Heap) :
    (∃ v h', arith op symbol l r h = .ok v h' ∧ arith op symbol' l r h = .ok v h') ∨
      ∃ c c' h', arith op symbol l r h = .error c h' ∧ arith op symbol' l r h = .error c' h' ∧
        c.cls = c'.cls := by
  cases hx : arith? op l r h with
  | ok found h' =>
      cases found with
      | some v => exact .inl ⟨v, h', bind_of_ok hx, bind_of_ok hx⟩
      | none => exact .inr ⟨_, _, h', bind_of_ok hx, bind_of_ok hx, rfl⟩
  | error c h' =>
      have hfail : ∀ name, arith op name l r h = .error c h' :=
        fun name => bind_error_iff.mpr (.inl hx)
      exact .inr ⟨c, c, h', hfail symbol, hfail symbol', rfl⟩

lemma inplace_eq_arith {op : ArithOp} {l : Value} (hl : op = .add → ∀ dest, l ≠ .list dest)
    (r : Value) : l.inplace op r = arith op op.inplaceSymbol l r := by
  rw [inplace]
  exact fun dest hop => hl hop dest

/-- Two lists are joined in a new one. -/
lemma binary_add_lists (a b : Ref .list) (h : Heap) :
    (Value.list a).binary .add (.list b) h =
      .ok (.list h.lists.next) { h with lists := h.lists.alloc (h.list a ++ h.list b) } :=
  rfl

end Value

/-! ### Items to be added -/

/-- The contents of the items that an iterable value gives: all of those of a sequence, or those
that an iterator has to come. If these are not too many, then it can go through all of them. -/
def Heap.Yields (h : Heap) (v : Value) (xs : List Value) : Prop :=
  (v.isSequence = true ∧ xs = h.contents v) ∨
    ∃ it, v = .iter it ∧ (h.iter it).Steady h ∧ (xs.length ≤ 33554432 → (h.iter it).Countable) ∧
      xs = (h.iter it).rest h

/-- The value is the list at `b`, or an iterator that goes through it and stands at `index`. -/
def Heap.Reads (h : Heap) (v : Value) (b : Ref .list) (index : ℕ) : Prop :=
  (v = .list b ∧ index = 0) ∨ ∃ it, v = .iter it ∧ h.iter it = .list b index

/-- The steps of an iterator through a list give the items from its index on. -/
lemma Iter.takeOnto_list {h : Heap} {b : Ref .list} {n index : ℕ} (taken : Array Value)
    (hn : (h.list b).size - index < n) :
    ∃ last, (Iter.list b index).takeOnto n taken h =
      .ok (taken ++ ((h.list b).toList.drop index).toArray, last) h := by
  induction n generalizing index taken with
  | zero => exact absurd hn (Nat.not_lt_zero _)
  | succ n ih =>
      have hnext : (Iter.list b index).next h =
          .ok ((h.list b)[index]?.map (·, Iter.list b (index + 1))) h := rfl
      cases hv : (h.list b)[index]? with
      | none =>
          have hdrop : (h.list b).toList.drop index = [] := by
            simpa using Array.getElem?_eq_none_iff.mp hv
          rw [hv] at hnext
          refine ⟨.list b index, ?_⟩
          rw [takeOnto, bind_of_ok hnext, hdrop, Array.append_empty]
          rfl
      | some v =>
          obtain ⟨hlt, rfl⟩ := Array.getElem?_eq_some_iff.mp hv
          have hn' : (h.list b).size - (index + 1) < n := by omega
          obtain ⟨last, hlast⟩ := ih (taken.push (h.list b)[index]) hn'
          rw [hv] at hnext
          refine ⟨last, ?_⟩
          have hdrop := List.drop_eq_getElem_cons (l := (h.list b).toList) hlt
          rw [takeOnto, bind_of_ok hnext, hdrop]
          refine hlast.trans ?_
          simp

lemma Iter.drain_list {h : Heap} {b : Ref .list} {index : ℕ}
    (hle : (h.list b).size - index ≤ 33554432) :
    ∃ last, (Iter.list b index).drain h =
      .ok (((h.list b).toList.drop index).toArray, last) h := by
  obtain ⟨last, htake⟩ := takeOnto_list (h := h) (b := b) #[] (Nat.lt_succ_self _)
  refine ⟨last, ?_⟩
  rw [drain, bind_of_ok (Eval.get_run h), sizeHint, bind_of_ok (Eval.ofLimit_of_le hle h), htake,
    Array.empty_append]

namespace Value

variable {h : Heap} {v : Value} {xs : List Value}

/-- The items of an iterable value are collected, unless they are too many. The lists stay. -/
lemma collect_of_le (hy : h.Yields v xs) (hle : xs.length ≤ 33554432) :
    ∃ ys h', v.collect h = .ok ys h' ∧ ys.toList.map content = xs ∧ h'.lists = h.lists := by
  rcases hy with ⟨hs, rfl⟩ | ⟨it, rfl, hs, hc, rfl⟩
  · obtain ⟨ys, n, hitems, hys⟩ := items_of_le hs hle
    rw [collect_of_isSequence hs]
    exact ⟨ys, _, hitems, hys, rfl⟩
  · obtain ⟨ys, last, n, hdrain, hys, -⟩ := Iter.drain_of_le hs (hc hle) hle
    refine ⟨ys, { h with idents := n, iters := h.iters.set it last }, ?_, hys, rfl⟩
    rw [collect, bind_of_ok (Eval.get_run h), bind_of_ok hdrain]
    rfl

/-- Too many items are refused. -/
lemma collect_of_lt (hy : h.Yields v xs) (hlt : 33554432 < xs.length) :
    v.collect h = .error (.sequenceTooLarge xs.length) h := by
  rcases hy with ⟨hs, rfl⟩ | ⟨it, rfl, hs, -, rfl⟩
  · rw [collect_of_isSequence hs]
    exact items_of_lt hs hlt
  · rw [collect, bind_of_ok (Eval.get_run h)]
    exact bind_error_iff.mpr (.inl (Iter.drain_of_lt hs hlt))

/-- What is collected from a list, by way of an iterator or not, are the items that it holds. -/
lemma collect_of_reads {b : Ref .list} {index : ℕ} (hr : h.Reads v b index)
    (hle : (h.list b).size - index ≤ 33554432) :
    ∃ h', v.collect h = .ok ((h.list b).toList.drop index).toArray h' := by
  obtain ⟨last, hdrain⟩ := Iter.drain_list hle
  rcases hr with ⟨rfl, rfl⟩ | ⟨it, rfl, hit⟩
  · refine ⟨h, ?_⟩
    rw [collect_of_isSequence rfl, items, bind_of_ok (show (list b).iterator h = _ from rfl)]
    exact bind_of_ok hdrain
  · refine ⟨{ h with iters := h.iters.set it last }, ?_⟩
    rw [collect, bind_of_ok (Eval.get_run h), hit, bind_of_ok hdrain]
    rfl

end Value

/-- A list that is read yields as many items as are left of it. -/
lemma Heap.Yields.length_of_reads {h : Heap} {v : Value} {xs : List Value} {b : Ref .list}
    {index : ℕ} (hy : h.Yields v xs) (hr : h.Reads v b index) :
    xs.length = (h.list b).size - index := by
  rcases hr with ⟨rfl, rfl⟩ | ⟨it, rfl, hit⟩
  · rcases hy with ⟨-, rfl⟩ | ⟨it, hit, -⟩
    · simp [contents]
    · cases hit
  · rcases hy with ⟨hs, -⟩ | ⟨it', ⟨⟩, -, -, rfl⟩
    · cases hs
    · simp [hit, Iter.rest, contents]

/-! ### Lists that grow -/

namespace Value

variable {h : Heap} {r : Value} {xs : List Value}

/-- Where a list would end with what has been collected. -/
lemma size_add_collected {h' : Heap} {ys : Array Value} (dest : Ref .list)
    (hys : ys.toList.map content = xs) (hlists : h'.lists = h.lists) :
    (h'.list dest).size + ys.size = (h.list dest).size + xs.length := by
  have hlength : ys.size = xs.length := by simp [← hys]
  rw [Heap.list, hlists, ← Heap.list, hlength]

/-- A list grows by what is collected, if there is room for it. -/
lemma extend_of_le (dest : Ref .list) (hy : h.Yields r xs)
    (hle : (h.list dest).size + xs.length ≤ 33554432) :
    ∃ ys h' h'', r.collect h = .ok ys h' ∧ ys.toList.map content = xs ∧
      extend dest r h = .ok () h'' ∧ h''.lists = h.lists.modify dest (· ++ ys) := by
  obtain ⟨ys, h', hc, hys, hlists⟩ := collect_of_le hy (by omega)
  have hsize : (h'.list dest).size + ys.size ≤ 33554432 := by
    rwa [size_add_collected dest hys hlists]
  refine ⟨ys, h', { h' with lists := h'.lists.modify dest (· ++ ys) }, hc, hys, ?_, by rw [hlists]⟩
  rw [extend, bind_of_ok hc, bind_of_ok (Eval.get_run h'),
    bind_of_ok (Eval.ofLimit_of_le hsize h')]
  rfl

/-- All lists stay if there is no room, be it for the items alone or for all of the list. -/
lemma extend_of_lt (dest : Ref .list) (hy : h.Yields r xs)
    (hlt : 33554432 < (h.list dest).size + xs.length) :
    ∃ n h', extend dest r h = .error (.sequenceTooLarge n) h' ∧ h'.lists = h.lists := by
  rcases Nat.lt_or_ge 33554432 xs.length with hxs | hxs
  · exact ⟨_, h, bind_error_iff.mpr (.inl (collect_of_lt hy hxs)), rfl⟩
  · obtain ⟨ys, h', hc, hys, hlists⟩ := collect_of_le hy hxs
    have hsize : 33554432 < (h'.list dest).size + ys.size := by
      rwa [size_add_collected dest hys hlists]
    refine ⟨(h'.list dest).size + ys.size, h', ?_, hlists⟩
    rw [extend, bind_of_ok hc, bind_of_ok (Eval.get_run h')]
    exact bind_error_iff.mpr (.inl (Eval.ofLimit_of_lt hsize h'))

end Value

/-- What becomes of the list `old` at `dest` to which the items `xs` of `r` are to be added, where
the machine is `m`, its current frame `f`, and `rest` is on the stack below the operands. -/
inductive Exec.Extension (m : Machine) (f : Frame) (rest : List Value) (dest : Ref .list)
    (old : Array Value) (r : Value) (xs : List Value) :
    EStateM.Result Fault Machine (Option Signal) → Prop
  /-- The same list, with the items at its end that are collected before it grows. -/
  | grown {ys : Array Value} {collected heap : Heap} (hle : old.size + xs.length ≤ 33554432)
      (hcollect : r.collect m.heap = .ok ys collected) (hys : ys.toList.map Value.content = xs)
      (hreads : ∀ b index, m.heap.Reads r b index →
        ys.toList = (m.heap.list b).toList.drop index)
      (hlist : heap.lists.get? dest = some (old ++ ys)) :
      Extension m f rest dest old r xs
        (.ok none ({ m with heap }.withTop { f with stack := .list dest :: rest }))
  | tooLarge {c : Cause} {heap : Heap} (hlt : 33554432 < old.size + xs.length)
      (hc : c.cls = .memoryError) (hlist : heap.lists.get? dest = some old) :
      Extension m f rest dest old r xs
        (.error (.cause c) ({ m with heap }.withTop { f with stack := rest }))

namespace Exec

variable {m : Machine} {f : Frame} {below : List Frame} {l r : Value} {rest : List Value}
  {op : ArithOp} {i : Instruction} {code : CodeObject} {h' : Heap}

section Inplace

variable (hf : m.frames = f :: below) (hs : f.stack = r :: l :: rest)
  (hi : i.opcode = some (.inplace op))

include hf hs hi

lemma execute_inplace_of_ok {v : Value} (hx : l.inplace op r m.heap = .ok v h') :
    execute code i m = .ok none ({ m with heap := h' }.withTop { f with stack := v :: rest }) :=
  execute_of_perform_ok hi rfl (operate_of_ok (fun l r => l.inplace op r) hf hs hx)

lemma execute_inplace_of_error {c : Cause} (hx : l.inplace op r m.heap = .error c h') :
    execute code i m =
      .error (.cause c) ({ m with heap := h' }.withTop { f with stack := rest }) :=
  execute_of_perform_error hi rfl (operate_of_error (fun l r => l.inplace op r) hf hs hx)

end Inplace

section Binary

variable (hf : m.frames = f :: below) (hs : f.stack = r :: l :: rest)
  (hi : i.opcode = some (.binary (.arith op)))

include hf hs hi

lemma execute_binary_of_ok {v : Value} (hx : l.binary op r m.heap = .ok v h') :
    execute code i m = .ok none ({ m with heap := h' }.withTop { f with stack := v :: rest }) :=
  execute_of_perform_ok hi rfl (operate_of_ok (fun l r => l.binary op r) hf hs hx)

lemma execute_binary_of_error {c : Cause} (hx : l.binary op r m.heap = .error c h') :
    execute code i m =
      .error (.cause c) ({ m with heap := h' }.withTop { f with stack := rest }) :=
  execute_of_perform_error hi rfl (operate_of_error (fun l r => l.binary op r) hf hs hx)

end Binary

/-- **A list on the left of `+=`** grows by the items of the right operand. -/
lemma extension_of_inplace {dest : Ref .list} {old : Array Value} {xs : List Value}
    (hf : m.frames = f :: below) (hs : f.stack = r :: .list dest :: rest)
    (hi : i.opcode = some (.inplace .add)) (hold : m.heap.lists.get? dest = some old)
    (hy : m.heap.Yields r xs) : Extension m f rest dest old r xs (execute code i m) := by
  have hlist : m.heap.list dest = old := Heap.list_of_get? hold
  rcases Nat.lt_or_ge 33554432 (old.size + xs.length) with hlt | hle
  · obtain ⟨n, h', hextend, hlists⟩ := Value.extend_of_lt dest hy (hlist ▸ hlt)
    have hx : (Value.list dest).inplace .add r m.heap = .error (.sequenceTooLarge n) h' :=
      bind_error_iff.mpr (.inl hextend)
    rw [execute_inplace_of_error hf hs hi hx]
    exact .tooLarge hlt rfl (hlists ▸ hold)
  · obtain ⟨ys, h', h'', hc, hys, hextend, hlists⟩ :=
      Value.extend_of_le dest hy (hlist ▸ hle)
    have hx : (Value.list dest).inplace .add r m.heap = .ok (.list dest) h'' := bind_of_ok hextend
    rw [execute_inplace_of_ok hf hs hi hx]
    refine .grown hle hc hys ?_ (hlists ▸ Store.get?_modify_self hold _)
    intro b index hr
    have hlength := hy.length_of_reads hr
    obtain ⟨h₁, hc'⟩ := Value.collect_of_reads hr (by omega)
    rw [hc] at hc'
    cases hc'
    rfl

/-- **Every other operand or operator**: both forms come to the same. -/
lemma agree_of_inplace {j : Instruction} (hf : m.frames = f :: below)
    (hs : f.stack = r :: l :: rest) (hi : i.opcode = some (.inplace op))
    (hj : j.opcode = some (.binary (.arith op))) (hl : op = .add → ∀ dest, l ≠ .list dest) :
    Agree (execute code i m) (execute code j m) := by
  have hinplace := congrFun (Value.inplace_eq_arith hl r) m.heap
  rcases Value.arith_agree op op.inplaceSymbol op.symbol l r m.heap with
    ⟨v, h', hx, hy⟩ | ⟨c, c', h', hx, hy, hcls⟩
  · rw [execute_inplace_of_ok hf hs hi (hinplace.trans hx), execute_binary_of_ok hf hs hj hy]
    exact .value _
  · rw [execute_inplace_of_error hf hs hi (hinplace.trans hx), execute_binary_of_error hf hs hj hy]
    exact .exception _ hcls

/-- Two lists have been joined in a list that was not there before, and all that were there are
as they were. -/
structure Joins (m : Machine) (f : Frame) (rest : List Value) (xs ys : Array Value)
    (fresh : Ref .list) (m' : Machine) : Prop where
  frames : m'.frames = { f with stack := .list fresh :: rest } :: m.frames.tail
  new : m.heap.lists.get? fresh = none
  joined : m'.heap.lists.get? fresh = some (xs ++ ys)
  kept : ∀ b zs, m.heap.lists.get? b = some zs → m'.heap.lists.get? b = some zs

/-- **Two lists under `+`**. -/
lemma joins_of_binary (code : CodeObject) {a b : Ref .list} {xs ys : Array Value}
    (hf : m.frames = f :: below) (hs : f.stack = .list b :: .list a :: rest)
    (hi : i.opcode = some (.binary (.arith .add)))
    (hxs : m.heap.lists.get? a = some xs) (hys : m.heap.lists.get? b = some ys) :
    ∃ fresh m', execute code i m = .ok none m' ∧ Joins m f rest xs ys fresh m' := by
  have hx := Value.binary_add_lists a b m.heap
  rw [Heap.list, Heap.list, hxs, hys, Option.getD_some, Option.getD_some] at hx
  refine ⟨_, _, execute_binary_of_ok hf hs hi hx, ?_, ?_, Store.get?_alloc_self _ _, ?_⟩
  · rw [hf]
    exact Machine.frames_withTop hf _
  · exact Array.getElem?_eq_none_iff.mpr (Nat.le_refl _)
  · intro c zs hc
    have hlt : c.index < m.heap.lists.size := (Array.getElem?_eq_some_iff.mp hc).1
    exact (Store.get?_alloc_of_lt _ _ hlt).trans hc

end Exec

open Exec

/-- **In-place operators agree with binary ones**, on all operands, but for a list on the left of
`+=`. That list then holds what it held and the items of the right operand, as they were before,
or it stays if this is too much; and where two lists are added, it holds what the new list would
that `+` makes of them, which leaves both of them alone. -/
theorem inplace_agrees_with_binary {m : Machine} {f : Frame} {below : List Frame} {l r : Value}
    {rest : List Value} {op : ArithOp} {i j : Instruction} (code : CodeObject)
    (hf : m.frames = f :: below) (hs : f.stack = r :: l :: rest)
    (hi : i.opcode = some (.inplace op)) (hj : j.opcode = some (.binary (.arith op))) :
    ((op = .add → ∀ dest, l ≠ .list dest) → Agree (execute code i m) (execute code j m)) ∧
      ∀ dest old, op = .add → l = .list dest → m.heap.lists.get? dest = some old →
        (∀ xs, m.heap.Yields r xs → Extension m f rest dest old r xs (execute code i m)) ∧
          ∀ b ys, r = .list b → m.heap.lists.get? b = some ys →
            ∃ fresh m₁, execute code j m = .ok none m₁ ∧ Joins m f rest old ys fresh m₁ ∧
              ∀ m₂, execute code i m = .ok none m₂ →
                m₂.heap.lists.get? dest = m₁.heap.lists.get? fresh := by
  refine ⟨fun hl => agree_of_inplace hf hs hi hj hl, ?_⟩
  rintro dest old rfl rfl hold
  have hextension : ∀ xs, m.heap.Yields r xs →
      Extension m f rest dest old r xs (execute code i m) :=
    fun xs hy => extension_of_inplace hf hs hi hold hy
  refine ⟨hextension, ?_⟩
  rintro b ys rfl hys
  obtain ⟨fresh, m₁, hrun, hjoins⟩ := joins_of_binary code hf hs hj hold hys
  refine ⟨fresh, m₁, hrun, hjoins, ?_⟩
  intro m₂ hrun'
  have hext := hextension _ (.inl ⟨rfl, rfl⟩)
  rw [hrun'] at hext
  cases hext with
  | @grown zs collected heap hle hcollect hzs hreads hlist =>
      have hzs : zs = ys := by
        have := hreads b 0 (.inl ⟨rfl, rfl⟩)
        rw [Heap.list, hys] at this
        simpa using this
      rw [hjoins.joined, ← hzs]
      exact hlist

/-- A list to which an iterator over it is added, with one of its two items to come. -/
theorem list_extended_by_own_iterator :
    ∃ (m : Machine) (f : Frame) (i : Instruction), m.frames = [f] ∧
      f.stack = [.iter ⟨0⟩, .list ⟨0⟩] ∧ i.opcode = some (.inplace .add) ∧
      m.heap.lists.get? ⟨0⟩ = some #[.int 1, .int 2] ∧ m.heap.iter ⟨0⟩ = .list ⟨0⟩ 1 ∧
      Extension m f [] ⟨0⟩ #[.int 1, .int 2] (.iter ⟨0⟩) [.int 2] (execute default i m) := by
  let f : Frame := { (default : Frame) with stack := [.iter ⟨0⟩, .list ⟨0⟩] }
  let heap : Heap := { lists := ⟨#[#[.int 1, .int 2]]⟩, iters := ⟨#[.list ⟨0⟩ 1]⟩ }
  let m : Machine := { calls := ⟨[f], 1, rfl⟩, builtins := ⟨0⟩, heap }
  let i : Instruction := { (default : Instruction) with opcode := some (.inplace .add) }
  let j : Instruction := { (default : Instruction) with opcode := some (.binary (.arith .add)) }
  have hagree := inplace_agrees_with_binary (m := m) (f := f) (i := i) (j := j) default
    rfl rfl rfl rfl
  refine ⟨m, f, i, rfl, rfl, rfl, rfl, rfl, ?_⟩
  exact (hagree.2 ⟨0⟩ _ rfl rfl rfl).1 _ (.inr ⟨⟨0⟩, rfl, trivial, fun _ => trivial, rfl⟩)

end StackVM
