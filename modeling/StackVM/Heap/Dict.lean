/-
Dicts: finite maps that keep their entries in the order in which the keys were
first stored. An entry shows the key object of its first store and the value of
its last. An index gives the place of each key, so that no two entries share one.

* `Dict.get?`, `Dict.set`, `Dict.erase`;
* `get?_eq_find?`: a lookup finds the entry of the key;
* `entries_set`, `entries_erase`: the entries after each operation;
* `get?_set_self`, `get?_set_of_ne`, `get?_erase_self`: lookups after each operation.
-/
import Std.Data.HashMap
import StackVM.Value.HashKey

namespace StackVM

/-- An entry of a dict. -/
structure Dict.Entry where
  key : HashKey
  /-- The key object of the first store. -/
  shown : Value
  value : Value
deriving Inhabited

/-- A map from hash keys to values, in order of insertion. -/
structure Dict where
  entries : Array Dict.Entry
  /-- The place of each key among the entries. -/
  index : Std.HashMap HashKey Nat
  index_eq : ∀ k i, index[k]? = some i ↔ entries[i]?.map Dict.Entry.key = some k

namespace Dict

/-- The dict without entries. -/
def empty : Dict :=
  ⟨#[], ∅, by simp⟩

instance : Inhabited Dict :=
  ⟨empty⟩

/-- Number of entries. -/
def size (d : Dict) : Nat :=
  d.entries.size

/-- The value of a key. -/
def get? (d : Dict) (k : HashKey) : Option Value :=
  (d.index[k]?.bind fun i => d.entries[i]?).map Entry.value

/-- The key has an entry. -/
def contains (d : Dict) (k : HashKey) : Bool :=
  d.index[k]?.isSome

/-- The key object at a position. -/
def keyAt? (d : Dict) (i : Nat) : Option Value :=
  d.entries[i]?.map Entry.shown

/-- The key objects. -/
def keys (d : Dict) : List Value :=
  d.entries.toList.map Entry.shown

/-- The index gives the place of every entry. -/
theorem index_of_entry (d : Dict) {i : Nat} {e : Entry} (h : d.entries[i]? = some e) :
    d.index[e.key]? = some i := by
  rw [d.index_eq, h]
  rfl

/-- There is an entry where the index says. -/
theorem entry_of_index (d : Dict) {k : HashKey} {i : Nat} (h : d.index[k]? = some i) :
    ∃ e, d.entries[i]? = some e ∧ e.key = k := by
  simpa using (d.index_eq k i).1 h

/-! ### The index after each operation -/

/-- The index holds for entries with the same keys. -/
theorem index_modify (d : Dict) (i : Nat) (value : Value) (k : HashKey) (j : Nat) :
    d.index[k]? = some j ↔
      (d.entries.modify i ({ · with value }))[j]?.map Entry.key = some k := by
  rw [d.index_eq, Array.getElem?_modify]
  split <;> cases d.entries[j]? <;> rfl

/-- A new key is indexed at the end of the entries. -/
theorem index_push (d : Dict) (e : Entry) (h : d.index[e.key]? = none) (k : HashKey) (j : Nat) :
    (d.index.insert e.key d.entries.size)[k]? = some j ↔
      (d.entries.push e)[j]?.map Entry.key = some k := by
  have hi := d.index_eq k j
  rw [Std.HashMap.getElem?_insert, Array.getElem?_push]
  by_cases hk : e.key = k
  · subst hk
    by_cases hj : j = d.entries.size
    · simp [hj]
    · rw [h] at hi
      simp [hj, ← hi, eq_comm]
  · by_cases hj : j = d.entries.size
    · simp [hj, hk, d.index_eq]
    · simp [hj, hk, hi]

/-- The place of an entry after the one at `i` has been removed. -/
def shift (i j : Nat) : Nat :=
  if i < j then j - 1 else j

/-- A key is no longer indexed once its entry is removed, and later entries move
down. -/
theorem index_erase (d : Dict) {k : HashKey} {i : Nat} (h : d.index[k]? = some i) (k' : HashKey)
    (j : Nat) :
    ((d.index.erase k).map fun _ => shift i)[k']? = some j ↔
      (d.entries.eraseIdxIfInBounds i)[j]?.map Entry.key = some k' := by
  obtain ⟨e, he, rfl⟩ := d.entry_of_index h
  have hlt : i < d.entries.size := (Array.getElem?_eq_some_iff.1 he).1
  rw [Std.HashMap.getElem?_map, Std.HashMap.getElem?_erase, Array.eraseIdxIfInBounds, dif_pos hlt,
    Array.getElem?_eraseIdx hlt]
  have hj := d.index_eq k' j
  have hj' := d.index_eq k' (j + 1)
  by_cases hk : e.key = k'
  · subst hk
    rw [h] at hj hj'
    simp only [beq_self_eq_true, if_true, Option.map_none, reduceCtorEq, false_iff]
    split
    · rw [← hj]
      simp
      omega
    · rw [← hj']
      simp
      omega
  · have hi : d.index[k']? ≠ some i := fun h' => by
      obtain ⟨e', he', rfl⟩ := d.entry_of_index h'
      rw [he] at he'
      exact hk (congrArg Entry.key (Option.some.inj he'))
    simp only [beq_iff_eq, hk, if_false, Option.map_eq_some_iff]
    constructor
    · rintro ⟨m, hm, hs⟩
      have hne : m ≠ i := fun e => hi (e ▸ hm)
      unfold shift at hs
      split at hs
      · rw [if_neg (by omega), show j + 1 = m by omega, ← Option.map_eq_some_iff, ← d.index_eq, hm]
      · rw [if_pos (by omega), ← hs, ← Option.map_eq_some_iff, ← d.index_eq, hm]
    · intro hm
      split at hm
      · exact ⟨j, (d.index_eq k' j).2 (Option.map_eq_some_iff.2 hm), if_neg (by omega)⟩
      · exact ⟨j + 1, (d.index_eq k' (j + 1)).2 (Option.map_eq_some_iff.2 hm), if_pos (by omega)⟩

/-! ### Changing a dict -/

/-- Stores a value. A key that has an entry keeps its place and its key object. -/
def set (d : Dict) (k : HashKey) (shown value : Value) : Dict :=
  match h : d.index[k]? with
  | some i =>
    { entries := d.entries.modify i ({ · with value })
      index := d.index
      index_eq := d.index_modify i value }
  | none =>
    let place := d.entries.size
    { entries := d.entries.push ⟨k, shown, value⟩
      index := d.index.insert k place
      index_eq := d.index_push ⟨k, shown, value⟩ h }

/-- Removes an entry; the others keep their order. -/
def erase (d : Dict) (k : HashKey) : Dict :=
  match h : d.index[k]? with
  | some i =>
    { entries := d.entries.eraseIdxIfInBounds i
      index := (d.index.erase k).map fun _ => shift i
      index_eq := d.index_erase h }
  | none => d

/-! ### Lookups -/

/-- A lookup finds the entry of the key. -/
theorem get?_eq_find? (d : Dict) (k : HashKey) :
    d.get? k = (d.entries.find? fun e => e.key = k).map Entry.value := by
  unfold get?
  congr 1
  cases h : d.index[k]? with
  | none =>
    rw [eq_comm, Option.bind_none, Array.find?_eq_none]
    intro e he hk
    obtain ⟨i, hi⟩ := Array.mem_iff_getElem?.1 he
    have := d.index_of_entry hi
    simp_all
  | some i =>
    obtain ⟨e, he, hk⟩ := d.entry_of_index h
    obtain ⟨e', he'⟩ : ∃ e', d.entries.find? (fun e => e.key = k) = some e' := by
      rw [← Option.isSome_iff_exists, Array.find?_isSome]
      exact ⟨e, Array.mem_iff_getElem?.2 ⟨i, he⟩, by simp [hk]⟩
    obtain ⟨i', hi'⟩ := Array.mem_iff_getElem?.1 (Array.mem_of_find?_eq_some he')
    have hk' : e'.key = k := by simpa using Array.find?_some he'
    have : some i' = some i := by rw [← d.index_of_entry hi', hk', h]
    obtain rfl := Option.some.inj this
    rw [he', Option.bind_some, hi']

/-- A key has an entry if a lookup finds a value. -/
theorem contains_eq_isSome (d : Dict) (k : HashKey) : d.contains k = (d.get? k).isSome := by
  unfold contains get?
  cases h : d.index[k]? with
  | none => rfl
  | some i =>
    obtain ⟨e, he, _⟩ := d.entry_of_index h
    simp [he]

/-- The entries after a store. -/
theorem entries_set (d : Dict) (k : HashKey) (shown value : Value) :
    (d.set k shown value).entries =
      if d.contains k then d.entries.map fun e => if e.key = k then { e with value } else e
      else d.entries.push ⟨k, shown, value⟩ := by
  unfold set contains
  split
  · rename_i i h
    dsimp only
    rw [if_pos (by simp [h])]
    apply Array.ext_getElem?
    intro j
    rw [Array.getElem?_modify, Array.getElem?_map]
    cases hj : d.entries[j]? with
    | none => simp
    | some e =>
      have hi := d.index_of_entry hj
      have hk : e.key = k ↔ i = j :=
        ⟨fun hk => by rw [hk, h] at hi; exact Option.some.inj hi, fun hij => by
          subst hij
          obtain ⟨e', he', hk'⟩ := d.entry_of_index h
          rw [hj] at he'
          rw [Option.some.inj he', hk']⟩
      by_cases hij : i = j <;> simp [hk, hij]
  · rename_i h
    dsimp only
    rw [if_neg (by simp [h])]

/-- The entries after a removal. -/
theorem entries_erase (d : Dict) (k : HashKey) :
    (d.erase k).entries = d.entries.filter fun e => e.key ≠ k := by
  unfold erase
  split
  · rename_i i h
    obtain ⟨e, he, rfl⟩ := d.entry_of_index h
    have hne : ∀ j e', d.entries[j]? = some e' → j ≠ i → e'.key ≠ e.key := fun j e' hj hji hk => by
      have := d.index_of_entry hj
      rw [hk, h] at this
      exact hji (Option.some.inj this).symm
    apply Array.toList_inj.1
    rw [Array.toList_eraseIdxIfInBounds, Array.toList_filter, List.eraseIdx_eq_take_drop_succ]
    rw [← Array.getElem?_toList] at he
    obtain ⟨hlt, hget⟩ := List.getElem?_eq_some_iff.1 he
    conv => rhs; rw [← List.take_append_drop i d.entries.toList, List.filter_append,
      List.drop_eq_getElem_cons hlt, hget, List.filter_cons_of_neg (by simp)]
    congr 1
    · rw [eq_comm, List.filter_eq_self]
      intro e' he'
      obtain ⟨j, hj⟩ := List.mem_iff_getElem?.1 he'
      have hji : j < i := by
        have := (List.getElem?_eq_some_iff.1 hj).1
        simp at this
        omega
      rw [List.getElem?_take_of_lt hji, Array.getElem?_toList] at hj
      simpa using hne j e' hj (by omega)
    · rw [eq_comm, List.filter_eq_self]
      intro e' he'
      obtain ⟨j, hj⟩ := List.mem_iff_getElem?.1 he'
      rw [List.getElem?_drop, Array.getElem?_toList] at hj
      simpa using hne _ e' hj (by omega)
  · rename_i h
    rw [eq_comm, Array.filter_eq_self]
    intro e he
    obtain ⟨j, hj⟩ := Array.mem_iff_getElem?.1 he
    have := d.index_of_entry hj
    simp only [decide_eq_true_eq]
    rintro rfl
    simp_all

/-- A stored key has the stored value. -/
@[simp] theorem get?_set_self (d : Dict) (k : HashKey) (shown value : Value) :
    (d.set k shown value).get? k = some value := by
  unfold set get?
  split
  · rename_i i h
    obtain ⟨e, he, _⟩ := d.entry_of_index h
    simp [h, he, Array.getElem?_modify]
  · simp

/-- Storing at one key leaves the others. -/
theorem get?_set_of_ne (d : Dict) {k k' : HashKey} (h : k ≠ k') (shown value : Value) :
    (d.set k shown value).get? k' = d.get? k' := by
  unfold set get?
  split
  · rename_i i hi
    cases hj : d.index[k']? with
    | none => rfl
    | some j =>
      have hij : i ≠ j := fun e => by
        obtain ⟨a, ha, hk⟩ := d.entry_of_index hi
        obtain ⟨b, hb, hk'⟩ := d.entry_of_index hj
        rw [← e, ha] at hb
        exact h (by rw [← hk, ← hk', Option.some.inj hb])
      simp [Array.getElem?_modify, hij]
  · rw [Std.HashMap.getElem?_insert]
    cases hj : d.index[k']? with
    | none => simp [h]
    | some j =>
      obtain ⟨b, hb, _⟩ := d.entry_of_index hj
      have hlt : j < d.entries.size := (Array.getElem?_eq_some_iff.1 hb).1
      simp [h, Array.getElem?_push, Nat.ne_of_lt hlt]

/-- An erased key has no value. -/
@[simp] theorem get?_erase_self (d : Dict) (k : HashKey) : (d.erase k).get? k = none := by
  rw [get?_eq_find?, entries_erase]
  simp

end Dict

end StackVM
