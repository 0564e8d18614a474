/-
Dicts as the outcome of their history. A dict that starts without entries is stored to, deleted
from and looked up in by instructions, some of which fail. What it holds afterwards is told by
these accesses alone: which keys are there, in which order, under which key object and with which
value.

* `Dict.Access`: an instruction on an item of a dict;
* `Dict.Live`, `Dict.FirstStore`, `Dict.LastStore`: what accesses in a row say of a hash key;
* `Dict.since_snoc`: what one more of them changes;
* `Dict.Reflects`: the entries of a dict are those that accesses leave;
* `Dict.Reflects.of_idle`, `Dict.Reflects.set`, `Dict.Reflects.erase`: **one access**;
* `Dict.Answer`: what an access comes to, and `Dict.Access.Ready.answer`;
* `Dict.History`: accesses in the course of a program;
* `dicts_list_first_stores`: **whole histories**.
-/
import Mathlib
import StackVM.Proofs.Equality
import StackVM.Proofs.Operands

namespace StackVM

/-- The machine that a run leaves, whether it gives a result or fails. -/
inductive Exec.Leaves {α : Type} : EStateM.Result Fault Machine α → Machine → Prop
  | ok (a : α) (m : Machine) : Leaves (.ok a m) m
  | error (e : Fault) (m : Machine) : Leaves (.error e m) m

lemma Exec.exists_leaves {α : Type} (res : EStateM.Result Fault Machine α) :
    ∃ m, Leaves res m := by
  cases res with
  | ok a m => exact ⟨m, .ok a m⟩
  | error e m => exact ⟨m, .error e m⟩

/-- A value has a hash key, or its type has none. -/
lemma Value.hashKey_run {key : Value} (h : Heap) :
    key.hashKey h = match key.hashKey? with
      | .ok k => .ok k h
      | .error t => .error (.unhashable t) h := by
  rw [Value.hashKey]
  cases key.hashKey? <;> rfl

namespace Dict

/-! ### Accesses -/

/-- An instruction on an item of a dict. -/
inductive Access where
  /-- A store that leaves the dict on the stack. -/
  | storeMap (key value : Value)
  | storeSubscr (key value : Value)
  | delete (key : Value)
  | lookup (key : Value)

namespace Access

/-- The key object. -/
def key : Access → Value
  | .storeMap key _ | .storeSubscr key _ | .delete key | .lookup key => key

/-- The opcode of the instruction. -/
def opcode : Access → Opcode
  | .storeMap _ _ => .storeMap
  | .storeSubscr _ _ => .storeSubscr
  | .delete _ => .deleteSubscr
  | .lookup _ => .binary .subscr

/-- The operands of an access to the dict at `r`, top first. -/
def operands (r : Ref .dict) : Access → List Value
  | .storeMap key value => [key, value, .dict r]
  | .storeSubscr key value => [key, .dict r, value]
  | .delete key | .lookup key => [key, .dict r]

/-- The access stores a value under a hash key. -/
def Stores (a : Access) (k : HashKey) (key value : Value) : Prop :=
  (a = .storeMap key value ∨ a = .storeSubscr key value) ∧ key.hashKey? = .ok k

/-- The access is to delete a hash key. -/
def Deletes (a : Access) (k : HashKey) : Prop :=
  ∃ key, a = .delete key ∧ key.hashKey? = .ok k

/-- The access stores or deletes a hash key. -/
def Touches (a : Access) (k : HashKey) : Prop :=
  (∃ key value, a.Stores k key value) ∨ a.Deletes k

variable {a : Access} {k k' : HashKey} {key key' value value' : Value}

lemma Stores.unique (h : a.Stores k key value) (h' : a.Stores k' key' value') :
    k' = k ∧ key' = key ∧ value' = value := by
  obtain ⟨rfl | rfl, hk⟩ := h <;> obtain ⟨ha | ha, hk'⟩ := h' <;> cases ha <;>
    exact ⟨Except.ok.inj (hk'.symm.trans hk), rfl, rfl⟩

lemma Stores.not_deletes (h : a.Stores k key value) : ¬ a.Deletes k' := by
  rintro ⟨key', rfl, -⟩
  obtain ⟨ha | ha, -⟩ := h <;> cases ha

lemma Deletes.unique (h : a.Deletes k) (h' : a.Deletes k') : k' = k := by
  obtain ⟨key, rfl, hk⟩ := h
  obtain ⟨key', ha, hk'⟩ := h'
  cases ha
  exact Except.ok.inj (hk'.symm.trans hk)

lemma Deletes.not_stores (h : a.Deletes k) : ¬ a.Stores k' key value :=
  fun hs => hs.not_deletes h

/-- An access whose key has no hash key does nothing. -/
lemma not_touches_of_unhashable {t : TypeTag} (h : a.key.hashKey? = .error t) : ¬ a.Touches k := by
  rintro (⟨key, value, rfl | rfl, hk⟩ | ⟨key, rfl, hk⟩) <;>
    rw [show key.hashKey? = .error t from h] at hk <;> cases hk

lemma not_touches_lookup : ¬ (Access.lookup key).Touches k := by
  rintro (⟨key, value, h | h, -⟩ | ⟨key, h, -⟩) <;> cases h

end Access

/-! ### What accesses say of a hash key -/

/-- One of the accesses `h` is as `P` says, given those before it, and none after it is as `Q`
says. -/
def Since (P : List Access → Access → Prop) (Q : Access → Prop) (h : List Access) : Prop :=
  ∃ before a after, h = before ++ a :: after ∧ P before a ∧ ∀ b ∈ after, ¬ Q b

/-- The hash key was stored and has not been deleted since. -/
def Live (h : List Access) (k : HashKey) : Prop :=
  Since (fun _ a => ∃ key value, a.Stores k key value) (·.Deletes k) h

/-- The access at place `i` is the first store under `k` since its last deletion, and `key` is
its key object. -/
def FirstStore (h : List Access) (k : HashKey) (i : ℕ) (key : Value) : Prop :=
  Since (fun before a => before.length = i ∧ (∃ value, a.Stores k key value) ∧ ¬ Live before k)
    (·.Deletes k) h

/-- The last store under `k` was one of `value`, and `k` has not been deleted since. -/
def LastStore (h : List Access) (k : HashKey) (value : Value) : Prop :=
  Since (fun _ a => ∃ key, a.Stores k key value) (·.Touches k) h

section Snoc

variable {h : List Access} {a : Access} {k : HashKey} {key value : Value} {i : ℕ}

/-- One more access is such itself, or does not undo one that was. -/
lemma since_snoc {P : List Access → Access → Prop} {Q : Access → Prop} :
    Since P Q (h ++ [a]) ↔ P h a ∨ Since P Q h ∧ ¬ Q a := by
  constructor
  · rintro ⟨before, b, after, heq, hp, hq⟩
    rcases List.eq_nil_or_concat after with rfl | ⟨after, c, rfl⟩
    · obtain ⟨rfl, hab⟩ := List.append_inj' heq rfl
      cases hab
      exact .inl hp
    · have hc : h ++ [a] = (before ++ b :: after) ++ [c] := by simp [heq]
      obtain ⟨rfl, hac⟩ := List.append_inj' hc rfl
      cases hac
      simp only [List.concat_eq_append, List.forall_mem_append, List.forall_mem_singleton] at hq
      exact .inr ⟨⟨before, b, after, rfl, hp, hq.1⟩, hq.2⟩
  · rintro (hp | ⟨⟨before, b, after, rfl, hp, hq⟩, ha⟩)
    · exact ⟨h, a, [], rfl, hp, by simp⟩
    · exact ⟨before, b, after ++ [a], by simp, hp, by simpa [or_imp, forall_and] using ⟨hq, ha⟩⟩

lemma live_snoc : Live (h ++ [a]) k ↔
    (∃ key value, a.Stores k key value) ∨ Live h k ∧ ¬ a.Deletes k :=
  since_snoc

lemma firstStore_snoc : FirstStore (h ++ [a]) k i key ↔
    (h.length = i ∧ (∃ value, a.Stores k key value) ∧ ¬ Live h k) ∨
      FirstStore h k i key ∧ ¬ a.Deletes k :=
  since_snoc

lemma lastStore_snoc : LastStore (h ++ [a]) k value ↔
    (∃ key, a.Stores k key value) ∨ LastStore h k value ∧ ¬ a.Touches k :=
  since_snoc

lemma FirstStore.lt_length (hf : FirstStore h k i key) : i < h.length := by
  obtain ⟨before, a, after, rfl, ⟨rfl, -⟩, -⟩ := hf
  simp

/-- The first store of a hash key that is there has been before. -/
lemma FirstStore.of_snoc (hl : Live h k) (hf : FirstStore (h ++ [a]) k i key) :
    FirstStore h k i key := by
  rcases firstStore_snoc.mp hf with ⟨-, -, hnew⟩ | ⟨hf, -⟩
  · exact absurd hl hnew
  · exact hf

end Snoc

/-! ### The entries that accesses leave -/

/-- The first store of the one entry was before that of the other. -/
def Entry.Precedes (h : List Access) (e e' : Entry) : Prop :=
  ∀ i j key key', FirstStore h e.key i key → FirstStore h e'.key j key' → i < j

/-- The entries of `d` are those that the accesses `h` leave: one for each hash key that was stored
and not deleted since, in the order of the first stores, with the key object of that first store
and the value of the last. -/
structure Reflects (d : Dict) (h : List Access) : Prop where
  distinct : d.hashKeys.Nodup
  live : ∀ k, k ∈ d.hashKeys ↔ Live h k
  order : d.entries.toList.Pairwise (Entry.Precedes h)
  shown : ∀ e ∈ d.entries.toList, ∃ i, FirstStore h e.key i e.shown
  value : ∀ e ∈ d.entries.toList, LastStore h e.key e.value

section Reflects

variable {d d' : Dict} {h : List Access} {a : Access} {k : HashKey} {key value : Value}

lemma mem_hashKeys_of_mem {e : Entry} (he : e ∈ d.entries.toList) : e.key ∈ d.hashKeys :=
  List.mem_map_of_mem he

lemma contains_iff : d.contains k = true ↔ k ∈ d.hashKeys := by
  rw [contains_eq_isSome, mem_hashKeys_iff, Option.isSome_iff_exists]

lemma reflects_nil (hd : d.entries = #[]) : d.Reflects [] := by
  have hlive : ∀ k, ¬ Live [] k := by
    rintro k ⟨before, a, after, h, -⟩
    simp at h
  constructor
  case distinct => exact d.nodup_hashKeys
  case live => simp [hashKeys, hd, hlive]
  all_goals simp [hd]

/-- Entries of hash keys that are there stay in their order. -/
lemma pairwise_precedes_snoc {es : List Entry} (hes : es.Pairwise (Entry.Precedes h))
    (hl : ∀ e ∈ es, Live h e.key) : es.Pairwise (Entry.Precedes (h ++ [a])) := by
  refine hes.imp_of_mem fun he he' hp => ?_
  intro i j key key' hi hj
  exact hp i j key key' (hi.of_snoc (hl _ he)) (hj.of_snoc (hl _ he'))

lemma Reflects.order_snoc (hd : d.Reflects h) (a : Access) :
    d.entries.toList.Pairwise (Entry.Precedes (h ++ [a])) :=
  pairwise_precedes_snoc hd.order fun _ he => (hd.live _).mp (mem_hashKeys_of_mem he)

/-- **An access that does nothing** leaves the entries as they are. -/
lemma Reflects.of_idle (hd : d.Reflects h) (ha : ∀ k ∈ d.hashKeys, ¬ a.Touches k)
    (hnew : ∀ k key value, ¬ a.Stores k key value) : d.Reflects (h ++ [a]) := by
  have hkept : ∀ k ∈ d.hashKeys, ¬ a.Deletes k := fun k hk hdel => ha k hk (.inr hdel)
  constructor
  case distinct => exact hd.distinct
  case live =>
    intro k
    rw [live_snoc]
    constructor
    · intro hk
      exact .inr ⟨(hd.live k).mp hk, hkept k hk⟩
    · rintro (⟨key, value, hs⟩ | ⟨hl, -⟩)
      · exact absurd hs (hnew k key value)
      · exact (hd.live k).mpr hl
  case order => exact hd.order_snoc a
  case shown =>
    intro e he
    obtain ⟨i, hi⟩ := hd.shown e he
    exact ⟨i, firstStore_snoc.mpr (.inr ⟨hi, hkept _ (mem_hashKeys_of_mem he)⟩)⟩
  case value =>
    intro e he
    exact lastStore_snoc.mpr (.inr ⟨hd.value e he, ha _ (mem_hashKeys_of_mem he)⟩)

/-- The hash keys after a store. -/
lemma mem_hashKeys_set {k' : HashKey} :
    k' ∈ (d.set k key value).hashKeys ↔ k' = k ∨ k' ∈ d.hashKeys := by
  simp only [mem_hashKeys_iff]
  by_cases hk : k = k'
  · subst hk
    simp
  · rw [get?_set_of_ne d hk]
    simp [Ne.symm hk]

/-- The entry of a hash key that is there gets another value. -/
def Entry.withValue (k : HashKey) (value : Value) (e : Entry) : Entry :=
  if e.key = k then { e with value } else e

lemma Entry.key_withValue (e : Entry) : (e.withValue k value).key = e.key := by
  rw [withValue]
  split <;> rfl

lemma Entry.shown_withValue (e : Entry) : (e.withValue k value).shown = e.shown := by
  rw [withValue]
  split <;> rfl

/-- A hash key that is there keeps its place and its key object. -/
lemma entries_set_of_mem (hk : k ∈ d.hashKeys) :
    (d.set k key value).entries.toList = d.entries.toList.map (Entry.withValue k value) := by
  rw [entries_set, if_pos (contains_iff.mpr hk), Array.toList_map]
  rfl

/-- A new hash key comes last. -/
lemma entries_set_of_not_mem (hk : k ∉ d.hashKeys) :
    (d.set k key value).entries.toList = d.entries.toList ++ [⟨k, key, value⟩] := by
  rw [entries_set, if_neg (fun hc => hk (contains_iff.mp hc)), Array.toList_push]

/-- A store under one hash key leaves what is said of the others. -/
lemma Reflects.kept_by_store (hd : d.Reflects h) (ha : a.Stores k key value) {e : Entry}
    (he : e ∈ d.entries.toList) :
    (∃ i, FirstStore (h ++ [a]) e.key i e.shown) ∧
      (e.key ≠ k → LastStore (h ++ [a]) e.key e.value) := by
  obtain ⟨i, hi⟩ := hd.shown e he
  refine ⟨⟨i, firstStore_snoc.mpr (.inr ⟨hi, ha.not_deletes⟩)⟩, fun hne => ?_⟩
  refine lastStore_snoc.mpr (.inr ⟨hd.value e he, ?_⟩)
  rintro (⟨key', value', hs⟩ | hdel)
  · exact hne (ha.unique hs).1
  · exact ha.not_deletes hdel

lemma Reflects.live_set (hd : d.Reflects h) (ha : a.Stores k key value) (k' : HashKey) :
    k' ∈ (d.set k key value).hashKeys ↔ Live (h ++ [a]) k' := by
  rw [mem_hashKeys_set, live_snoc, hd.live k']
  constructor
  · rintro (rfl | hl)
    · exact .inl ⟨key, value, ha⟩
    · exact .inr ⟨hl, ha.not_deletes⟩
  · rintro (⟨key', value', hs⟩ | ⟨hl, -⟩)
    · exact .inl (ha.unique hs).1
    · exact .inr hl

lemma lastStore_of_stores (ha : a.Stores k key value) : LastStore (h ++ [a]) k value :=
  lastStore_snoc.mpr (.inl ⟨key, ha⟩)

/-- A store under a hash key that is there gives its entry another value. -/
lemma Reflects.set_of_mem (hd : d.Reflects h) (ha : a.Stores k key value) (hk : k ∈ d.hashKeys) :
    (d.set k key value).Reflects (h ++ [a]) := by
  refine ⟨nodup_hashKeys _, hd.live_set ha, ?_, ?_, ?_⟩
  · rw [entries_set_of_mem hk, List.pairwise_map]
    refine (hd.order_snoc a).imp fun {e e'} he => ?_
    rw [Entry.Precedes, Entry.key_withValue, Entry.key_withValue]
    exact he
  · rw [entries_set_of_mem hk, List.forall_mem_map]
    intro e he
    rw [Entry.key_withValue, Entry.shown_withValue]
    exact (hd.kept_by_store ha he).1
  · rw [entries_set_of_mem hk, List.forall_mem_map]
    intro e he
    by_cases hek : e.key = k
    · simpa [Entry.withValue, hek] using lastStore_of_stores ha
    · simpa [Entry.withValue, hek] using (hd.kept_by_store ha he).2 hek

/-- A store under another hash key makes an entry at the end. -/
lemma Reflects.set_of_not_mem (hd : d.Reflects h) (ha : a.Stores k key value)
    (hk : k ∉ d.hashKeys) : (d.set k key value).Reflects (h ++ [a]) := by
  have hnew : ¬ Live h k := fun hl => hk ((hd.live k).mpr hl)
  refine ⟨nodup_hashKeys _, hd.live_set ha, ?_, ?_, ?_⟩
  · rw [entries_set_of_not_mem hk, List.pairwise_append]
    refine ⟨hd.order_snoc a, List.pairwise_singleton _ _, ?_⟩
    intro e he e' he' i j key₁ key₂ hi hj
    obtain rfl := List.mem_singleton.mp he'
    -- the new entry has its first store now, and every other one has had it before
    have hi' := (hi.of_snoc ((hd.live _).mp (mem_hashKeys_of_mem he))).lt_length
    rcases firstStore_snoc.mp hj with ⟨rfl, -⟩ | ⟨hj, -⟩
    · exact hi'
    · obtain ⟨before, b, after, rfl, ⟨-, ⟨value', hs⟩, -⟩, hkept⟩ := hj
      exact absurd ⟨before, b, after, rfl, ⟨_, value', hs⟩, hkept⟩ hnew
  · rw [entries_set_of_not_mem hk, List.forall_mem_append, List.forall_mem_singleton]
    exact ⟨fun e he => (hd.kept_by_store ha he).1,
      h.length, firstStore_snoc.mpr (.inl ⟨rfl, ⟨value, ha⟩, hnew⟩)⟩
  · rw [entries_set_of_not_mem hk, List.forall_mem_append, List.forall_mem_singleton]
    refine ⟨fun e he => (hd.kept_by_store ha he).2 ?_, lastStore_of_stores ha⟩
    rintro rfl
    exact hk (mem_hashKeys_of_mem he)

/-- **A store** under a hash key gives its entry another value, or makes an entry at the end. -/
lemma Reflects.set (hd : d.Reflects h) (ha : a.Stores k key value) :
    (d.set k key value).Reflects (h ++ [a]) := by
  by_cases hk : k ∈ d.hashKeys
  · exact hd.set_of_mem ha hk
  · exact hd.set_of_not_mem ha hk

/-- **A deletion** takes the entry of the hash key out. -/
lemma Reflects.erase (hd : d.Reflects h) (ha : a.Deletes k) : (d.erase k).Reflects (h ++ [a]) := by
  have hentries : (d.erase k).entries.toList = d.entries.toList.filter (·.key ≠ k) := by
    rw [entries_erase, Array.toList_filter]
  have hmem : ∀ e, e ∈ (d.erase k).entries.toList ↔ e ∈ d.entries.toList ∧ e.key ≠ k := by
    simp [hentries]
  have hidle : ∀ k', k' ≠ k → ¬ a.Touches k' := by
    rintro k' hne (⟨key, value, hs⟩ | hdel)
    · exact ha.not_stores hs
    · exact hne (ha.unique hdel)
  constructor
  case distinct => exact nodup_hashKeys _
  case live =>
    intro k'
    have hkeys : k' ∈ (d.erase k).hashKeys ↔ k' ∈ d.hashKeys ∧ k' ≠ k := by
      simp only [hashKeys, hentries, List.mem_map, List.mem_filter, decide_eq_true_eq]
      grind
    rw [hkeys, hd.live k', live_snoc]
    constructor
    · rintro ⟨hl, hne⟩
      exact .inr ⟨hl, fun hdel => hne (ha.unique hdel)⟩
    · rintro (⟨key, value, hs⟩ | ⟨hl, hdel⟩)
      · exact absurd hs ha.not_stores
      · exact ⟨hl, fun heq => hdel (heq ▸ ha)⟩
  case order =>
    refine pairwise_precedes_snoc (hentries ▸ hd.order.filter _) fun e he => ?_
    exact (hd.live _).mp (mem_hashKeys_of_mem ((hmem e).mp he).1)
  case shown =>
    intro e he
    obtain ⟨he, hne⟩ := (hmem e).mp he
    obtain ⟨i, hi⟩ := hd.shown e he
    exact ⟨i, firstStore_snoc.mpr (.inr ⟨hi, fun hdel => hne (ha.unique hdel)⟩)⟩
  case value =>
    intro e he
    obtain ⟨he, hne⟩ := (hmem e).mp he
    exact lastStore_snoc.mpr (.inr ⟨hd.value e he, hidle _ hne⟩)

end Reflects

/-! ### Accesses by instructions -/

namespace Access

/-- What the access does to the dict at `r`, with the values that it finds. -/
def run (r : Ref .dict) : Access → Eval (List Value)
  | .storeMap key value | .storeSubscr key value => do
    (Value.dict r).setItem key value
    return []
  | .delete key => do
    (Value.dict r).deleteItem key
    return []
  | .lookup key => return [← (Value.dict r).getItem key]

/-- The operand that the access leaves on the stack. -/
def remains (r : Ref .dict) : Access → List Value
  | .storeMap _ _ => [.dict r]
  | _ => []

/-- The access is what an instruction is about to do to the dict at `r`. -/
structure Ready (a : Access) (r : Ref .dict) (i : Instruction) (m : Machine) (f : Frame)
    (below : List Frame) (rest : List Value) : Prop where
  opcode : i.opcode = some a.opcode
  frames : m.frames = f :: below
  operands : f.stack = a.operands r ++ rest

section Ready

variable {a : Access} {r : Ref .dict} {i : Instruction} {m : Machine} {f : Frame}
  {below : List Frame} {rest : List Value} {code : CodeObject} {h' : Heap}

lemma executeOp_eq (a : Access) :
    Exec.executeOp code i a.opcode = Exec.perform code i a.opcode >>= fun _ => pure none := by
  cases a <;> rfl

/-- The instruction pops its operands and then does what the access is. -/
lemma Ready.perform_eq (hr : a.Ready r i m f below rest) (code : CodeObject) :
    Exec.perform code i a.opcode m = match a.run r m.heap with
      | .ok vs h' => .ok ()
          ({ m with heap := h' }.withTop { f with stack := vs ++ (a.remains r ++ rest) })
      | .error c h' => .error (.cause c)
          ({ m with heap := h' }.withTop { f with stack := a.remains r ++ rest }) := by
  -- what is left to do once the operands are popped, for an access that finds no value
  have change : ∀ (x : Eval Unit) (stack : List Value),
      (liftM x : Exec Unit) (m.withTop { f with stack }) =
        match (do x; return [] : Eval (List Value)) m.heap with
        | .ok vs h' => .ok () ({ m with heap := h' }.withTop { f with stack := vs ++ stack })
        | .error c h' => .error (.cause c) ({ m with heap := h' }.withTop { f with stack }) := by
    intro x stack
    cases hx : x m.heap with
    | ok u h' =>
        rw [bind_of_ok hx]
        exact Exec.lift_ok_iff.mpr ⟨h', hx, rfl⟩
    | error c h' =>
        rw [bind_error_iff.mpr (.inl hx)]
        exact Exec.lift_error_iff.mpr ⟨c, h', hx, rfl, rfl⟩
  obtain ⟨-, hf, hs⟩ := hr
  cases a with
  | storeMap key value =>
      refine (Exec.popTwo _ hf hs).trans ?_
      refine (bind_of_ok (Exec.peek_of_stack (Machine.frames_withTop hf _) rfl)).trans ?_
      exact change ((Value.dict r).setItem key value) _
  | storeSubscr key value =>
      refine (Exec.popTwo _ hf hs).trans ?_
      refine (bind_of_ok (Exec.pop_of_stack (Machine.frames_withTop hf _) rfl)).trans ?_
      rw [Machine.withTop_withTop hf]
      exact change ((Value.dict r).setItem key value) _
  | delete key =>
      refine (Exec.popTwo _ hf hs).trans ?_
      exact change ((Value.dict r).deleteItem key) _
  | lookup key =>
      cases hx : (Value.dict r).getItem key m.heap with
      | ok v h' =>
          rw [show (lookup key).run r m.heap = .ok [v] h' from bind_of_ok hx]
          exact Exec.operate_of_ok Value.getItem hf hs hx
      | error c h' =>
          rw [show (lookup key).run r m.heap = .error c h' from bind_error_iff.mpr (.inl hx)]
          exact Exec.operate_of_error Value.getItem hf hs hx

lemma Ready.execute_of_ok {vs : List Value} (hr : a.Ready r i m f below rest)
    (hx : a.run r m.heap = .ok vs h') :
    Exec.execute code i m = .ok none
      ({ m with heap := h' }.withTop { f with stack := vs ++ (a.remains r ++ rest) }) := by
  have hp := hr.perform_eq code
  rw [hx] at hp
  exact Exec.execute_of_perform_ok hr.opcode (executeOp_eq a) hp

lemma Ready.execute_of_error {c : Cause} (hr : a.Ready r i m f below rest)
    (hx : a.run r m.heap = .error c h') :
    Exec.execute code i m = .error (.cause c)
      ({ m with heap := h' }.withTop { f with stack := a.remains r ++ rest }) := by
  have hp := hr.perform_eq code
  rw [hx] at hp
  exact Exec.execute_of_perform_error hr.opcode (executeOp_eq a) hp

end Ready

section Run

variable {a : Access} {r : Ref .dict} {h : Heap} {k : HashKey} {key value : Value}

/-- An access whose key has no hash key fails at once. -/
lemma run_of_unhashable {t : TypeTag} (hk : a.key.hashKey? = .error t) :
    a.run r h = .error (.unhashable t) h := by
  have hrun : a.key.hashKey h = .error (.unhashable t) h := by rw [Value.hashKey_run, hk]
  cases a with
  | storeMap key value | storeSubscr key value | delete key =>
      exact bind_error_iff.mpr (.inl (bind_error_iff.mpr (.inl hrun)))
  | lookup key =>
      refine bind_error_iff.mpr (.inl (bind_error_iff.mpr (.inr ⟨h, h, rfl, ?_⟩)))
      exact bind_error_iff.mpr (.inl hrun)

lemma run_of_stores (hs : a.Stores k key value) :
    a.run r h = .ok [] { h with dicts := h.dicts.modify r (·.set k key value) } := by
  obtain ⟨ha, hk⟩ := hs
  have hrun : key.hashKey h = .ok k h := by rw [Value.hashKey_run, hk]
  have hset : (Value.dict r).setItem key value h =
      .ok () { h with dicts := h.dicts.modify r (·.set k key value) } := bind_of_ok hrun
  rcases ha with rfl | rfl
  · exact bind_of_ok hset
  · exact bind_of_ok hset

lemma run_delete (hk : key.hashKey? = .ok k) :
    (delete key).run r h =
      if (h.dict r).contains k then .ok [] { h with dicts := h.dicts.modify r (·.erase k) }
      else .error (.missingKey (h.text key)) h := by
  have hrun : key.hashKey h = .ok k h := by rw [Value.hashKey_run, hk]
  have hdel : (Value.dict r).deleteItem key h =
      if (h.dict r).contains k then .ok () { h with dicts := h.dicts.modify r (·.erase k) }
      else .error (.missingKey (h.text key)) h := by
    refine (bind_of_ok hrun).trans ((bind_of_ok rfl).trans ?_)
    cases (h.dict r).contains k <;> rfl
  rw [run]
  by_cases hc : (h.dict r).contains k = true
  · rw [if_pos hc] at hdel ⊢
    exact bind_of_ok hdel
  · rw [if_neg hc] at hdel ⊢
    exact bind_error_iff.mpr (.inl hdel)

lemma run_lookup (hk : key.hashKey? = .ok k) :
    (lookup key).run r h = match (h.dict r).get? k with
      | some v => .ok [v] h
      | none => .error (.missingKey (h.text key)) h := by
  have hrun : key.hashKey h = .ok k h := by rw [Value.hashKey_run, hk]
  have hget : (Value.dict r).getItem key h = match (h.dict r).get? k with
      | some v => .ok v h
      | none => .error (.missingKey (h.text key)) h := by
    refine (bind_of_ok rfl).trans ((bind_of_ok hrun).trans ?_)
    cases (h.dict r).get? k <;> rfl
  rw [run]
  cases hv : (h.dict r).get? k with
  | some v =>
      rw [hv] at hget
      exact bind_of_ok hget
  | none =>
      rw [hv] at hget
      exact bind_error_iff.mpr (.inl hget)

end Run

end Access

/-! ### Histories -/

/-- What an access to the dict `d` at `r` comes to, after the accesses `h`, where the machine is
`m`, its current frame `f`, and `rest` is on the stack below the operands. -/
inductive Answer (h : List Access) (d : Dict) (r : Ref .dict) (m : Machine) (f : Frame)
    (rest : List Value) (a : Access) : EStateM.Result Fault Machine (Option Signal) → Prop
  /-- A key of a type that has no hash keys. -/
  | unhashable {t : TypeTag} {c : Cause} (hk : a.key.hashKey? = .error t)
      (hc : c.cls = .typeError) :
      Answer h d r m f rest a
        (.error (.cause c) (m.withTop { f with stack := a.remains r ++ rest }))
  | stored {k : HashKey} {key value : Value} {heap : Heap} (hs : a.Stores k key value)
      (hd : heap.dicts.get? r = some (d.set k key value)) :
      Answer h d r m f rest a
        (.ok none ({ m with heap }.withTop { f with stack := a.remains r ++ rest }))
  /-- The other entries stay in their order. -/
  | deleted {k : HashKey} {heap : Heap} (ha : a.Deletes k) (hl : Live h k)
      (hd : heap.dicts.get? r = some (d.erase k))
      (hentries : (d.erase k).entries.toList = d.entries.toList.filter (·.key ≠ k)) :
      Answer h d r m f rest a (.ok none ({ m with heap }.withTop { f with stack := rest }))
  | found {k : HashKey} {key value : Value} (ha : a = .lookup key) (hk : key.hashKey? = .ok k)
      (hv : LastStore h k value) :
      Answer h d r m f rest a (.ok none (m.withTop { f with stack := value :: rest }))
  /-- A key to delete or to look up that is not there. -/
  | missing {k : HashKey} {key : Value} {c : Cause} (ha : a = .delete key ∨ a = .lookup key)
      (hk : key.hashKey? = .ok k) (hl : ¬ Live h k) (hc : c.cls = .keyError) :
      Answer h d r m f rest a (.error (.cause c) (m.withTop { f with stack := rest }))

section Answer

variable {h : List Access} {d : Dict} {r : Ref .dict} {m : Machine} {f : Frame}
  {below : List Frame} {rest : List Value} {a : Access} {i : Instruction}

/-- The hash keys that are there are those that have a value. -/
lemma Reflects.live_iff (hd : d.Reflects h) {k : HashKey} : Live h k ↔ ∃ v, d.get? k = some v := by
  rw [← hd.live, mem_hashKeys_iff]

/-- The value of a hash key is that of its last store. -/
lemma Reflects.lastStore (hd : d.Reflects h) {k : HashKey} {v : Value} (hv : d.get? k = some v) :
    LastStore h k v := by
  obtain ⟨e, he, rfl, rfl⟩ := exists_mem_of_get? hv
  exact hd.value e he

/-- **An access to a dict** comes to what the accesses before it say. -/
lemma Access.Ready.answer (hr : a.Ready r i m f below rest) (hget : m.heap.dicts.get? r = some d)
    (hd : d.Reflects h) (code : CodeObject) :
    Answer h d r m f rest a (Exec.execute code i m) := by
  have hdict : m.heap.dict r = d := Heap.dict_of_get? hget
  have store : ∀ {k key value}, a.Stores k key value →
      Answer h d r m f rest a (Exec.execute code i m) := by
    intro k key value hs
    rw [hr.execute_of_ok (run_of_stores hs)]
    exact .stored hs (Store.get?_modify_self hget _)
  cases hk : a.key.hashKey? with
  | error t =>
      rw [hr.execute_of_error (run_of_unhashable hk)]
      exact .unhashable hk rfl
  | ok k =>
      cases a with
      | storeMap key value => exact store ⟨.inl rfl, hk⟩
      | storeSubscr key value => exact store ⟨.inr rfl, hk⟩
      | delete key =>
          have hrun := run_delete (r := r) (h := m.heap) hk
          rw [hdict] at hrun
          by_cases hc : d.contains k = true
          · rw [if_pos hc] at hrun
            rw [hr.execute_of_ok hrun]
            refine .deleted ⟨key, rfl, hk⟩ ?_ (Store.get?_modify_self hget _) ?_
            · exact (hd.live k).mp (contains_iff.mp hc)
            · rw [entries_erase, Array.toList_filter]
          · rw [if_neg hc] at hrun
            rw [hr.execute_of_error hrun]
            refine .missing (.inl rfl) hk (fun hl => hc ?_) rfl
            exact contains_iff.mpr ((hd.live k).mpr hl)
      | lookup key =>
          have hrun := run_lookup (r := r) (h := m.heap) hk
          rw [hdict] at hrun
          cases hv : d.get? k with
          | some v =>
              rw [hv] at hrun
              rw [hr.execute_of_ok hrun]
              exact .found rfl hk (hd.lastStore hv)
          | none =>
              rw [hv] at hrun
              rw [hr.execute_of_error hrun]
              refine .missing (.inr rfl) hk (fun hl => ?_) rfl
              obtain ⟨v, hv'⟩ := hd.live_iff.mp hl
              rw [hv] at hv'
              cases hv'

end Answer

/-- The accesses `h` have been made, one after the other, to the dict at `r`, which had no entries
before them; what else was done in between left the dict as it was. -/
inductive History (r : Ref .dict) : List Access → Machine → Prop
  | start {m : Machine} {d : Dict} (hd : m.heap.dicts.get? r = some d) (hempty : d.entries = #[]) :
      History r [] m
  | access {h : List Access} {m m' : Machine} {a : Access} {code : CodeObject} {i : Instruction}
      {f : Frame} {below : List Frame} {rest : List Value} (hist : History r h m)
      (ready : a.Ready r i m f below rest) (run : Exec.Leaves (Exec.execute code i m) m') :
      History r (h ++ [a]) m'
  | other {h : List Access} {m m' : Machine} (hist : History r h m)
      (hd : m'.heap.dicts.get? r = m.heap.dicts.get? r) : History r h m'

/-- **One access**: the dict holds what the accesses leave, with this one. -/
lemma Answer.reflects {h : List Access} {d : Dict} {r : Ref .dict} {m m' : Machine} {f : Frame}
    {rest : List Value} {a : Access} {res : EStateM.Result Fault Machine (Option Signal)}
    (ha : Answer h d r m f rest a res) (hget : m.heap.dicts.get? r = some d)
    (hd : d.Reflects h) (hrun : Exec.Leaves res m') :
    ∃ d', m'.heap.dicts.get? r = some d' ∧ d'.Reflects (h ++ [a]) := by
  have idle : (∀ k ∈ d.hashKeys, ¬ a.Touches k) → (∀ k key value, ¬ a.Stores k key value) →
      ∃ d', m.heap.dicts.get? r = some d' ∧ d'.Reflects (h ++ [a]) :=
    fun hkept hnew => ⟨d, hget, hd.of_idle hkept hnew⟩
  cases ha with
  | unhashable hk hc =>
      cases hrun
      have hno : ∀ k, ¬ a.Touches k := fun k => Access.not_touches_of_unhashable hk
      exact idle (fun k _ => hno k) fun k key value hs => hno k (.inl ⟨key, value, hs⟩)
  | stored hs hd' =>
      cases hrun
      exact ⟨_, hd', hd.set hs⟩
  | deleted ha hl hd' hentries =>
      cases hrun
      exact ⟨_, hd', hd.erase ha⟩
  | found ha hk hv =>
      cases hrun
      have hno : ∀ k, ¬ a.Touches k := fun k => ha ▸ Access.not_touches_lookup
      exact idle (fun k _ => hno k) fun k key value hs => hno k (.inl ⟨key, value, hs⟩)
  | @missing k key c ha hk hl hc =>
      cases hrun
      have hnew : ∀ k key value, ¬ a.Stores k key value := by
        rintro k key value ⟨hs | hs, -⟩ <;> obtain rfl | rfl := ha <;> cases hs
      refine idle ?_ hnew
      rintro k' hk' (⟨key, value, hs⟩ | ⟨key', rfl, hdel⟩)
      · exact hnew k' key value hs
      · obtain ⟨⟨⟩⟩ | ⟨⟨⟩⟩ := ha
        obtain rfl : k' = k := Except.ok.inj (hdel.symm.trans hk)
        exact hl ((hd.live k').mp hk')

/-- **Whole histories**: the dict holds what the accesses leave. -/
lemma History.reflects {r : Ref .dict} {h : List Access} {m : Machine} (hist : History r h m) :
    ∃ d, m.heap.dicts.get? r = some d ∧ d.Reflects h := by
  induction hist with
  | start hd hempty => exact ⟨_, hd, reflects_nil hempty⟩
  | access hist ready run ih =>
      obtain ⟨d, hget, hd⟩ := ih
      exact (ready.answer hget hd _).reflects hget hd run
  | other hist hd ih => rwa [hd]

end Dict

open Dict

/-- **Dicts are insertion-ordered maps.** After every history of accesses a dict has one entry for
each hash key that was stored and not deleted since, in the order of the first stores, with the
key object of the first store and the value of the last; and the next access, whatever its key and
wherever its instruction stands, comes to what the history says. -/
theorem dicts_list_first_stores {r : Ref .dict} {h : List Access} {m : Machine}
    (hist : History r h m) :
    ∃ d, m.heap.dicts.get? r = some d ∧ d.Reflects h ∧
      ∀ (a : Access) (code : CodeObject) (i : Instruction) (f : Frame) (below : List Frame)
        (rest : List Value), a.Ready r i m f below rest →
          Answer h d r m f rest a (Exec.execute code i m) := by
  obtain ⟨d, hget, hd⟩ := hist.reflects
  refine ⟨d, hget, hd, ?_⟩
  intro a code i f below rest ready
  exact ready.answer hget hd code

/-- Every list of accesses is a history. -/
lemma Dict.History.exists_of_empty {r : Ref .dict} {m : Machine} {d : Dict}
    (hd : m.heap.dicts.get? r = some d) (hempty : d.entries = #[]) (h : List Access) :
    ∃ m, History r h m := by
  induction h using List.reverseRecOn with
  | nil => exact ⟨m, .start hd hempty⟩
  | append_singleton h a ih =>
      obtain ⟨m, hist⟩ := ih
      let i : Instruction := { (default : Instruction) with opcode := some a.opcode }
      let f : Frame := { (default : Frame) with stack := a.operands r }
      let m' : Machine := { m with calls := ⟨[f], 1, rfl⟩ }
      have hist' : History r h m' := hist.other rfl
      have ready : a.Ready r i m' f [] [] := ⟨rfl, rfl, (List.append_nil _).symm⟩
      obtain ⟨m'', hrun⟩ := Exec.exists_leaves (Exec.execute default i m')
      exact ⟨m'', hist'.access ready hrun⟩

/-- Equal keys of two types, a key of a type that has no hash keys, a key that is not there, and a
key that is stored again after it was deleted. -/
theorem dict_of_equal_keys_lists_first_stores :
    ∃ h m d, h = [.storeMap (.int 1) (.int 10), .storeSubscr (.int 2) (.int 20),
        .storeSubscr (.bool true) (.int 30), .delete (.list ⟨0⟩), .lookup (.int 3),
        .delete (.int 1), .storeMap (.bool true) (.int 40)] ∧
      History ⟨0⟩ h m ∧ m.heap.dicts.get? ⟨0⟩ = some d ∧ d.Reflects h := by
  let m : Machine := { builtins := ⟨0⟩, heap := { dicts := ⟨#[.empty]⟩ } }
  have hd : m.heap.dicts.get? ⟨0⟩ = some .empty := rfl
  obtain ⟨m', hist⟩ := History.exists_of_empty hd rfl _
  obtain ⟨d, hget, hd, -⟩ := dicts_list_first_stores hist
  exact ⟨_, m', d, rfl, hist, hget, hd⟩

end StackVM
