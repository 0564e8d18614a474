/-
Cells in scope. Values refer to cells, and so do functions and frames; every cell that is
referred to anywhere should be a cell of the heap.

* `Keeps`: an invariant that a computation keeps, and what it says of its result;
* `Value.Within`, `Heap.Within`: the cells that stand in a value, and in the objects of a
  heap, are among the first ones;
* `Heap.Kept`: what operations on values keep;
* `newTuple_keeps`, `newList_keeps`, ...: new objects, and changes of objects.
-/
import StackVM.Proofs.Evaluation

namespace StackVM

/-! ### Invariants of computations -/

section Keeps

variable {ε σ α β : Type} {I : σ → Prop} {P : α → Prop} {Q : β → Prop}

/-- From a state in which `I` holds, `x` leads to one, whatever it comes to, and its result
has `P`. -/
structure Keeps (I : σ → Prop) (P : α → Prop) (x : EStateM ε σ α) : Prop where
  results : ∀ s a s', I s → x s = .ok a s' → I s' ∧ P a
  failures : ∀ s e s', I s → x s = .error e s' → I s'

namespace Keeps

lemma bind {x : EStateM ε σ α} {f : α → EStateM ε σ β} (hx : Keeps I P x)
    (hf : ∀ a, P a → Keeps I Q (f a)) : Keeps I Q (x >>= f) := by
  refine ⟨?_, ?_⟩
  · intro s b s'' hs h
    obtain ⟨a, s', h₁, h₂⟩ := bind_ok_iff.mp h
    obtain ⟨hs', ha⟩ := hx.results s a s' hs h₁
    exact (hf a ha).results s' b s'' hs' h₂
  · intro s e s'' hs h
    rcases bind_error_iff.mp h with h₁ | ⟨a, s', h₁, h₂⟩
    · exact hx.failures s e s'' hs h₁
    · obtain ⟨hs', ha⟩ := hx.results s a s' hs h₁
      exact (hf a ha).failures s' e s'' hs' h₂

lemma pure {a : α} (ha : P a) : Keeps I P (Pure.pure a : EStateM ε σ α) := by
  refine ⟨?_, ?_⟩
  · intro s b s' hs h
    cases h
    exact ⟨hs, ha⟩
  · intro s e s' hs h
    cases h

lemma throw (e : ε) : Keeps I P (throw e : EStateM ε σ α) := by
  refine ⟨?_, ?_⟩
  · intro s b s' hs h
    cases h
  · intro s e' s' hs h
    cases h
    exact hs

lemma get : Keeps I I (get : EStateM ε σ σ) := by
  refine ⟨?_, ?_⟩
  · intro s b s' hs h
    cases h
    exact ⟨hs, hs⟩
  · intro s e s' hs h
    cases h

lemma modifyGet {g : σ → α × σ} (hg : ∀ s, I s → I (g s).2 ∧ P (g s).1) :
    Keeps I P (MonadState.modifyGet g : EStateM ε σ α) := by
  refine ⟨?_, ?_⟩
  · intro s a s' hs h
    cases h
    exact hg s hs
  · intro s e s' hs h
    cases h

end Keeps

end Keeps

/-! ### Values -/

namespace Value

mutual

/-- Every cell that stands in the value is one of the first `n`. -/
def Within (n : Nat) : Value → Prop
  | .cell r => r.index < n
  | .tuple _ items => AllWithin n items
  | _ => True
termination_by structural v => v

/-- Every cell that stands in the values is one of the first `n`. -/
def AllWithin (n : Nat) : List Value → Prop
  | [] => True
  | v :: vs => Within n v ∧ AllWithin n vs
termination_by structural vs => vs

end

variable {m n : Nat}

lemma allWithin_iff {vs : List Value} : AllWithin n vs ↔ ∀ v ∈ vs, v.Within n := by
  induction vs with
  | nil => simp [AllWithin]
  | cons v vs ih => simp [AllWithin, ih]

lemma within_tuple_iff {ident : Ident} {items : List Value} :
    (Value.tuple ident items).Within n ↔ ∀ v ∈ items, v.Within n := by
  rw [Within, allWithin_iff]

mutual

lemma Within.mono (hmn : m ≤ n) : ∀ {v : Value}, v.Within m → v.Within n
  | .tuple _ items, h => by
      rw [Within] at h ⊢
      exact AllWithin.mono hmn h
  | .cell r, h => Nat.lt_of_lt_of_le (show r.index < m from h) hmn
  | .none, _ | .bool _, _ | .int _, _ | .float _, _ | .str _ _, _ | .list _, _ | .dict _, _
  | .range _, _ | .function _, _ | .builtin _, _ | .excClass _, _ | .exception _, _ | .code _, _
  | .iter _, _ => trivial

lemma AllWithin.mono (hmn : m ≤ n) : ∀ {vs : List Value}, AllWithin m vs → AllWithin n vs
  | [], _ => trivial
  | _ :: _, h => ⟨Within.mono hmn h.1, AllWithin.mono hmn h.2⟩

end

end Value

open Value (Within)

/-! ### Objects -/

/-- Every object of a store has `P`. -/
def Store.All {kind : RefKind} {α : Type} (P : α → Prop) (s : Store kind α) : Prop :=
  ∀ r a, s.get? r = some a → P a

namespace Store.All

variable {kind : RefKind} {α : Type} {P : α → Prop} {s : Store kind α}

lemma alloc (h : s.All P) {a : α} (ha : P a) : (s.alloc a).All P := by
  intro r b hb
  simp only [Store.alloc, Store.get?, Array.getElem?_push] at hb
  split at hb
  · cases hb
    exact ha
  · exact h r b hb

lemma set (h : s.All P) (r : Ref kind) {a : α} (ha : P a) : (s.set r a).All P := by
  intro r' b hb
  simp only [Store.set, Store.get?, Array.getElem?_setIfInBounds] at hb
  split at hb
  · split at hb
    · cases hb
      exact ha
    · cases hb
  · exact h r' b hb

lemma modify (h : s.All P) (r : Ref kind) {f : α → α} (hf : ∀ a, P a → P (f a)) :
    (s.modify r f).All P := by
  intro r' b hb
  simp only [Store.modify, Store.get?, Array.getElem?_modify] at hb
  split at hb
  · obtain ⟨a, ha, rfl⟩ := Option.map_eq_some_iff.mp hb
    exact hf a (h r' a ha)
  · exact h r' b hb

lemma mono {Q : α → Prop} (h : s.All P) (hPQ : ∀ a, P a → Q a) : s.All Q :=
  fun r a ha => hPQ a (h r a ha)

/-- What is read by default is as good as the objects. -/
lemma getD (h : s.All P) (r : Ref kind) {a : α} (ha : P a) : P ((s.get? r).getD a) := by
  cases hr : s.get? r with
  | none => exact ha
  | some b => exact h r b hr

end Store.All

/-- The cells in the keys and the values of a dict. -/
def Dict.Within (n : Nat) (d : Dict) : Prop :=
  ∀ e ∈ d.entries, e.shown.Within n ∧ e.value.Within n

namespace Dict

variable {n : Nat} {d : Dict}

lemma within_empty : Dict.empty.Within n :=
  fun e he => absurd he (Array.not_mem_empty e)

lemma Within.set (h : d.Within n) (k : HashKey) {shown value : Value} (hs : shown.Within n)
    (hv : value.Within n) : (d.set k shown value).Within n := by
  intro e he
  rw [entries_set] at he
  split at he
  · obtain ⟨e', he', rfl⟩ := Array.mem_map.mp he
    split
    · exact ⟨(h e' he').1, hv⟩
    · exact h e' he'
  · rcases Array.mem_push.mp he with he | rfl
    · exact h e he
    · exact ⟨hs, hv⟩

lemma Within.erase (h : d.Within n) (k : HashKey) : (d.erase k).Within n := by
  intro e he
  rw [entries_erase] at he
  exact h e (Array.mem_filter.mp he).1

lemma Within.get? (h : d.Within n) {k : HashKey} {v : Value} (hv : d.get? k = some v) :
    v.Within n := by
  rw [get?_eq_find?] at hv
  obtain ⟨e, he, rfl⟩ := Option.map_eq_some_iff.mp hv
  exact (h e (Array.mem_of_find?_eq_some he)).2

lemma Within.keyAt? (h : d.Within n) {i : Nat} {v : Value} (hv : d.keyAt? i = some v) :
    v.Within n := by
  obtain ⟨e, he, rfl⟩ := Option.map_eq_some_iff.mp hv
  exact (h e (Array.mem_of_getElem? he)).1

end Dict

/-- The cells in the values of a namespace. -/
def Namespace.Within (n : Nat) (ns : Namespace) : Prop :=
  ∀ b ∈ ns.bindings, b.2.Within n

namespace Namespace

variable {n : Nat} {ns : Namespace}

lemma within_empty : Namespace.empty.Within n :=
  List.forall_mem_nil _

lemma Within.erase (h : ns.Within n) (name : String) : (ns.erase name).Within n :=
  fun b hb => h b (List.mem_filter.mp hb).1

lemma Within.set (h : ns.Within n) (name : String) {v : Value} (hv : v.Within n) :
    (ns.set name v).Within n :=
  List.forall_mem_cons.mpr ⟨hv, h.erase name⟩

lemma Within.get? (h : ns.Within n) {name : String} {v : Value} (hv : ns.get? name = some v) :
    v.Within n := by
  obtain ⟨b, hb, rfl⟩ := Option.map_eq_some_iff.mp hv
  exact h b (List.mem_of_find?_eq_some hb)

lemma within_ofList {bs : List (String × Value)} (h : ∀ b ∈ bs, b.2.Within n) :
    (ofList bs).Within n := by
  have hfold : ∀ (bs : List (String × Value)) (ns : Namespace), ns.Within n →
      (∀ b ∈ bs, b.2.Within n) → (bs.foldl (fun ns b => ns.set b.1 b.2) ns).Within n := by
    intro bs
    induction bs with
    | nil => exact fun ns hns _ => hns
    | cons b bs ih =>
        intro ns hns hbs
        obtain ⟨hb, hbs⟩ := List.forall_mem_cons.mp hbs
        exact ih _ (hns.set b.1 hb) hbs
  exact hfold bs _ within_empty h

end Namespace

/-- The cells in the items that an iterator holds itself. -/
def Iter.Within (n : Nat) : Iter → Prop
  | .tuple items _ => ∀ v ∈ items, v.Within n
  | _ => True

/-- The cells in the defaults and the closure of a function. -/
structure Function.Within (n : Nat) (f : Function) : Prop where
  defaults : ∀ v ∈ f.defaults, v.Within n
  kwdefaults : ∀ d ∈ f.kwdefaults, d.2.Within n
  closure : ∀ r ∈ f.closure, r.index < n

lemma Function.within_default {n : Nat} : (default : Function).Within n :=
  ⟨List.forall_mem_nil _, List.forall_mem_nil _, List.forall_mem_nil _⟩

/-! ### Heaps -/

/-- Every cell that stands in an object of the heap is one of the first `n`. -/
structure Heap.Within (n : Nat) (h : Heap) : Prop where
  lists : h.lists.All fun items => ∀ v ∈ items, v.Within n
  dicts : h.dicts.All (Dict.Within n)
  cells : h.cells.All fun content => ∀ v ∈ content, v.Within n
  iters : h.iters.All (Iter.Within n)
  functions : h.functions.All (Function.Within n)
  namespaces : h.namespaces.All (Namespace.Within n)

/-- The heap `h` is `h₀` after operations on values in which the first `n` cells stand: its
cells are the same, and its functions are still there. -/
structure Heap.Kept (n : Nat) (h₀ h : Heap) : Prop where
  within : h.Within n
  cells : h.cells = h₀.cells
  functions : h₀.functions.Extends h.functions

namespace Heap

variable {n : Nat} {h₀ h : Heap}

lemma Within.kept (hh : h.Within n) : h.Kept n h :=
  ⟨hh, rfl, .refl _⟩

lemma Within.list (hh : h.Within n) (r : Ref .list) : ∀ v ∈ h.list r, v.Within n :=
  hh.lists.getD r fun v hv => absurd hv (Array.not_mem_empty v)

lemma Within.dict (hh : h.Within n) (r : Ref .dict) : (h.dict r).Within n :=
  hh.dicts.getD r Dict.within_empty

lemma Within.iter (hh : h.Within n) (r : Ref .iter) : (h.iter r).Within n :=
  hh.iters.getD r (fun _ hv => absurd hv (Array.not_mem_empty _))

lemma Within.function (hh : h.Within n) (r : Ref .function) : (h.function r).Within n :=
  hh.functions.getD r Function.within_default

lemma Within.names (hh : h.Within n) (r : Ref .namespace) : (h.names r).Within n :=
  hh.namespaces.getD r Namespace.within_empty

lemma Within.cell (hh : h.Within n) {r : Ref .cell} {v : Value} (hv : h.cell r = some v) :
    v.Within n :=
  hh.cells r (some v) (Option.join_eq_some_iff.mp hv) v rfl

end Heap

/-! ### New objects -/

open Heap (Kept)

variable {n : Nat} {h₀ : Heap}

namespace Eval

lemma ofLimit_keeps {α : Type} (x : Except LimitError α) :
    Keeps (Kept n h₀) (fun _ => True) (ofLimit x) := by
  cases x with
  | ok a => exact .pure trivial
  | error e => exact .throw e.cause

lemma ofExcept_keeps {α : Type} {P : α → Prop} {x : Except Cause α} (hx : ∀ a, x = .ok a → P a) :
    Keeps (Kept n h₀) P (Eval.ofExcept x) := by
  cases x with
  | ok a => exact .pure (hx a rfl)
  | error c => exact .throw c

lemma freshIdent_keeps : Keeps (Kept n h₀) (fun _ => True) freshIdent :=
  .modifyGet fun _ hh => ⟨⟨{ hh.within with }, hh.cells, hh.functions⟩, trivial⟩

lemma newStr_keeps (s : String) : Keeps (Kept n h₀) (Within n) (newStr s) :=
  freshIdent_keeps.bind fun _ _ => .pure trivial

lemma newTuple_keeps {items : List Value} (hi : ∀ v ∈ items, v.Within n) :
    Keeps (Kept n h₀) (Within n) (newTuple items) :=
  freshIdent_keeps.bind fun _ _ => .pure (Value.within_tuple_iff.mpr hi)

lemma newException_keeps (cls : ExcClass) (arg : Option String) :
    Keeps (Kept n h₀) (fun _ => True) (newException cls arg) :=
  freshIdent_keeps.bind fun _ _ => .pure trivial

lemma newList_keeps {items : Array Value} (hi : ∀ v ∈ items, v.Within n) :
    Keeps (Kept n h₀) (Within n) (newList items) :=
  .modifyGet fun _ hh =>
    ⟨⟨{ hh.within with lists := hh.within.lists.alloc hi }, hh.cells, hh.functions⟩, trivial⟩

lemma newDict_keeps {d : Dict} (hd : d.Within n) : Keeps (Kept n h₀) (Within n) (newDict d) :=
  .modifyGet fun _ hh =>
    ⟨⟨{ hh.within with dicts := hh.within.dicts.alloc hd }, hh.cells, hh.functions⟩, trivial⟩

lemma newIter_keeps {it : Iter} (hi : it.Within n) : Keeps (Kept n h₀) (Within n) (newIter it) :=
  .modifyGet fun _ hh =>
    ⟨⟨{ hh.within with iters := hh.within.iters.alloc hi }, hh.cells, hh.functions⟩, trivial⟩

lemma newFunction_keeps {f : Function} (hf : f.Within n) :
    Keeps (Kept n h₀) (Within n) (newFunction f) :=
  .modifyGet fun h hh =>
    ⟨⟨{ hh.within with functions := hh.within.functions.alloc hf }, hh.cells,
      hh.functions.trans (Store.extends_alloc h.functions f)⟩, trivial⟩

lemma newNamespace_keeps {ns : Namespace} (hns : ns.Within n) :
    Keeps (Kept n h₀) (fun _ => True) (newNamespace ns) :=
  .modifyGet fun _ hh =>
    ⟨⟨{ hh.within with namespaces := hh.within.namespaces.alloc hns }, hh.cells, hh.functions⟩,
      trivial⟩

lemma modifyList_keeps (r : Ref .list) {f : Array Value → Array Value}
    (hf : ∀ items, (∀ v ∈ items, v.Within n) → ∀ v ∈ f items, v.Within n) :
    Keeps (Kept n h₀) (fun _ => True) (modifyList r f) :=
  .modifyGet fun _ hh =>
    ⟨⟨{ hh.within with lists := hh.within.lists.modify r hf }, hh.cells, hh.functions⟩, trivial⟩

lemma modifyDict_keeps (r : Ref .dict) {f : Dict → Dict}
    (hf : ∀ d, d.Within n → (f d).Within n) :
    Keeps (Kept n h₀) (fun _ => True) (modifyDict r f) :=
  .modifyGet fun _ hh =>
    ⟨⟨{ hh.within with dicts := hh.within.dicts.modify r hf }, hh.cells, hh.functions⟩, trivial⟩

lemma setIter_keeps (r : Ref .iter) {it : Iter} (hi : it.Within n) :
    Keeps (Kept n h₀) (fun _ => True) (setIter r it) :=
  .modifyGet fun _ hh =>
    ⟨⟨{ hh.within with iters := hh.within.iters.set r hi }, hh.cells, hh.functions⟩, trivial⟩

lemma modifyNames_keeps (r : Ref .namespace) {f : Namespace → Namespace}
    (hf : ∀ ns, ns.Within n → (f ns).Within n) :
    Keeps (Kept n h₀) (fun _ => True) (modifyNames r f) :=
  .modifyGet fun _ hh =>
    ⟨⟨{ hh.within with namespaces := hh.within.namespaces.modify r hf }, hh.cells, hh.functions⟩,
      trivial⟩

lemma newMain_keeps : Keeps (Kept n h₀) (fun _ => True) newMain := by
  refine (newStr_keeps _).bind fun name hname => newNamespace_keeps ?_
  exact Namespace.within_ofList (by simpa [Within] using hname)

end Eval

end StackVM
