/-
Stores: the objects of one kind in the heap, found by reference.

* `Store.alloc`, `Store.get?`, `Store.set`;
* `get?_alloc_self`, `get?_set_self`, `get?_set_of_ne`, `get?_modify_self`: what a store
  holds after each operation.
-/
import StackVM.Value.Basic

namespace StackVM

/-- The objects of one kind, in the order in which they were made. -/
structure Store (kind : RefKind) (α : Type) where
  items : Array α := #[]
deriving Inhabited

namespace Store

variable {kind : RefKind} {α : Type}

/-- Number of objects. -/
def size (s : Store kind α) : Nat :=
  s.items.size

/-- The reference that the next object gets. -/
def next (s : Store kind α) : Ref kind :=
  ⟨s.size⟩

/-- Adds an object, to be found at `next`. -/
def alloc (s : Store kind α) (a : α) : Store kind α :=
  ⟨s.items.push a⟩

/-- The object at a reference. -/
def get? (s : Store kind α) (r : Ref kind) : Option α :=
  s.items[r.index]?

/-- Replaces the object at a reference. -/
def set (s : Store kind α) (r : Ref kind) (a : α) : Store kind α :=
  ⟨s.items.setIfInBounds r.index a⟩

/-- Changes the object at a reference. -/
def modify (s : Store kind α) (r : Ref kind) (f : α → α) : Store kind α :=
  ⟨s.items.modify r.index f⟩

/-- A new object is found at its reference. -/
@[simp] theorem get?_alloc_self (s : Store kind α) (a : α) : (s.alloc a).get? s.next = some a := by
  simp [alloc, get?, next, size]

/-- Older objects stay. -/
theorem get?_alloc_of_lt (s : Store kind α) (a : α) {r : Ref kind} (h : r.index < s.size) :
    (s.alloc a).get? r = s.get? r := by
  simp only [alloc, get?, size] at *
  rw [Array.getElem?_push, if_neg (by omega)]

/-- A replaced object is found at its reference. -/
theorem get?_set_self (s : Store kind α) (a : α) {r : Ref kind} (h : r.index < s.size) :
    (s.set r a).get? r = some a := by
  simp only [set, get?, size] at *
  simp [h]

/-- Other objects stay. -/
theorem get?_set_of_ne (s : Store kind α) (a : α) {r r' : Ref kind} (h : r ≠ r') :
    (s.set r a).get? r' = s.get? r' := by
  have : r.index ≠ r'.index := fun e => h (by cases r; cases r'; simp_all)
  simp [set, get?, this]

/-- A changed object is found at its reference. -/
theorem get?_modify_self {s : Store kind α} {r : Ref kind} {a : α} (h : s.get? r = some a)
    (f : α → α) : (s.modify r f).get? r = some (f a) := by
  rw [get?] at h
  simp [modify, get?, Array.getElem?_modify, h]

end Store

end StackVM
