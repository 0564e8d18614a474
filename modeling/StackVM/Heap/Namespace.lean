/-
Namespaces: the names a frame can see and their values. A namespace has no order.

* `Namespace.get?`, `Namespace.set`, `Namespace.erase`;
* `Namespace.builtins`: the builtin functions and the exception classes;
* `get?_set_self`, `get?_set_of_ne`, `get?_erase_self`: lookups after each operation.
-/
import StackVM.Value.Basic

namespace StackVM

/-- A map from names to values. -/
structure Namespace where
  bindings : List (String × Value) := []
deriving Inhabited

namespace Namespace

/-- The namespace without names. -/
def empty : Namespace := ⟨[]⟩

/-- Number of names. -/
def size (ns : Namespace) : Nat :=
  ns.bindings.length

/-- The value of a name. -/
def get? (ns : Namespace) (name : String) : Option Value :=
  (ns.bindings.find? fun b => b.1 = name).map Prod.snd

/-- The name is bound. -/
def contains (ns : Namespace) (name : String) : Bool :=
  ns.bindings.any fun b => b.1 = name

/-- Removes a name. -/
def erase (ns : Namespace) (name : String) : Namespace :=
  ⟨ns.bindings.filter fun b => b.1 ≠ name⟩

/-- Binds a name. -/
def set (ns : Namespace) (name : String) (v : Value) : Namespace :=
  ⟨(name, v) :: (ns.erase name).bindings⟩

/-- Binds names in order, so that the last binding of a name wins. -/
def ofList (bs : List (String × Value)) : Namespace :=
  bs.foldl (fun ns b => ns.set b.1 b.2) empty

/-- The bindings, sorted by name. -/
def sorted (ns : Namespace) : List (String × Value) :=
  ns.bindings.mergeSort fun a b => !(b.1 < a.1)

/-- The builtin functions and the exception classes under their names. -/
def builtins : Namespace :=
  ofList (Builtin.all.map (fun b => (b.name, .builtin b)) ++
    ExcClass.all.map fun c => (c.name, .excClass c))

/-- A bound name has its value. -/
@[simp] theorem get?_set_self (ns : Namespace) (name : String) (v : Value) :
    (ns.set name v).get? name = some v := by
  simp [get?, set]

/-- An erased name has no value. -/
@[simp] theorem get?_erase_self (ns : Namespace) (name : String) :
    (ns.erase name).get? name = none := by
  simp [get?, erase]

/-- Erasing a name leaves the others. -/
theorem get?_erase_of_ne (ns : Namespace) {name name' : String} (h : name ≠ name') :
    (ns.erase name).get? name' = ns.get? name' := by
  unfold get? erase
  induction ns.bindings with
  | nil => rfl
  | cons b bs ih =>
    by_cases hb : b.1 = name
    · simp_all
    · by_cases hb' : b.1 = name' <;> simp_all

/-- Binding a name leaves the others. -/
theorem get?_set_of_ne (ns : Namespace) {name name' : String} (h : name ≠ name') (v : Value) :
    (ns.set name v).get? name' = ns.get? name' := by
  have := get?_erase_of_ne ns h
  simp_all [get?, set]

end Namespace

end StackVM
