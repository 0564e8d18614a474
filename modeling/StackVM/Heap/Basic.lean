/-
The heap: every object that can change, or that is known by where it is, and the
supply of identities.

* `Iter`, `Function`: iterators and functions;
* `Heap`: the stores, one for each kind of object;
* `Eval`: operations on values that may use the heap and may fail with a cause.
-/
import StackVM.Exception.Cause
import StackVM.Heap.Dict
import StackVM.Heap.Namespace
import StackVM.Heap.Store
import StackVM.Limits

namespace StackVM

/-- Where an iterator stands. -/
inductive Iter where
  | range (r : Range) (index : Nat)
  /-- Reads the list anew at each step, so that it sees changes. -/
  | list (ref : Ref .list) (index : Nat)
  | tuple (items : Array Value) (index : Nat)
  /-- Runs over the keys and fails once the dict has another size. -/
  | dict (ref : Ref .dict) (size index : Nat)
  /-- Stands at a number of bytes from the start of the text. -/
  | str (text : String) (offset : Nat)
deriving Inhabited

/-- A function: its code, its defaults and what it captured where it was made. -/
structure Function where
  code : CodeObject
  /-- Defaults of the last positional parameters. -/
  defaults : List Value
  /-- Defaults of keyword-only parameters. -/
  kwdefaults : List (String × Value)
  globals : Ref .namespace
  /-- The cells of the free variables of the code. -/
  closure : List (Ref .cell)
deriving Inhabited

/-- The objects of a running program. -/
structure Heap where
  lists : Store .list (Array Value) := {}
  dicts : Store .dict Dict := {}
  cells : Store .cell (Option Value) := {}
  iters : Store .iter Iter := {}
  functions : Store .function Function := {}
  namespaces : Store .namespace Namespace := {}
  /-- Number of identities given out. -/
  idents : Nat := 0
deriving Inhabited

namespace Heap

/-- The heap without objects. -/
def empty : Heap := {}

/-- Items of a list. -/
def list (h : Heap) (r : Ref .list) : Array Value :=
  (h.lists.get? r).getD #[]

/-- A dict. -/
def dict (h : Heap) (r : Ref .dict) : Dict :=
  (h.dicts.get? r).getD .empty

/-- Content of a cell, if it has been assigned. -/
def cell (h : Heap) (r : Ref .cell) : Option Value :=
  (h.cells.get? r).join

/-- An iterator. -/
def iter (h : Heap) (r : Ref .iter) : Iter :=
  (h.iters.get? r).getD (.tuple #[] 0)

/-- A function. -/
def function (h : Heap) (r : Ref .function) : Function :=
  (h.functions.get? r).getD default

/-- The namespace at a reference. -/
def names (h : Heap) (r : Ref .namespace) : Namespace :=
  (h.namespaces.get? r).getD .empty

/-- The value of a name in the namespace at a reference. -/
def lookup (h : Heap) (r : Ref .namespace) (name : String) : Option Value :=
  (h.names r).get? name

/-- An identity that nothing else has. -/
def freshIdent (h : Heap) : Ident × Heap :=
  (.made h.idents, { h with idents := h.idents + 1 })

/-- A bound on how deep lists and dicts are nested in a value without cycles. -/
def nesting (h : Heap) : Nat :=
  h.lists.size + h.dicts.size

end Heap

/-- Operations on values: they may use the heap and may fail with a cause. -/
abbrev Eval := EStateM Cause Heap

namespace Eval

/-- Fails if a limit is exceeded. -/
def ofLimit {α : Type} : Except LimitError α → Eval α
  | .ok a => pure a
  | .error e => throw e.cause

/-- An identity that nothing else has. -/
def freshIdent : Eval Ident :=
  modifyGet Heap.freshIdent

/-- A new string. -/
def newStr (s : String) : Eval Value := do
  return .str (← freshIdent) s

/-- A new tuple. -/
def newTuple (items : List Value) : Eval Value := do
  return .tuple (← freshIdent) items

/-- A new exception instance. -/
def newException (cls : ExcClass) (arg : Option String) : Eval ExcObject := do
  return ⟨← freshIdent, cls, arg⟩

/-- A new list. -/
def newList (items : Array Value) : Eval Value :=
  modifyGet fun h => (.list h.lists.next, { h with lists := h.lists.alloc items })

/-- A new dict. -/
def newDict (d : Dict) : Eval Value :=
  modifyGet fun h => (.dict h.dicts.next, { h with dicts := h.dicts.alloc d })

/-- A new cell. -/
def newCell (content : Option Value) : Eval (Ref .cell) :=
  modifyGet fun h => (h.cells.next, { h with cells := h.cells.alloc content })

/-- A new iterator. -/
def newIter (it : Iter) : Eval Value :=
  modifyGet fun h => (.iter h.iters.next, { h with iters := h.iters.alloc it })

/-- A new function. -/
def newFunction (f : Function) : Eval Value :=
  modifyGet fun h => (.function h.functions.next, { h with functions := h.functions.alloc f })

/-- A new namespace. -/
def newNamespace (ns : Namespace) : Eval (Ref .namespace) :=
  modifyGet fun h => (h.namespaces.next, { h with namespaces := h.namespaces.alloc ns })

/-- Changes the items of a list. -/
def modifyList (r : Ref .list) (f : Array Value → Array Value) : Eval Unit :=
  modify fun h => { h with lists := h.lists.modify r f }

/-- Changes a dict. -/
def modifyDict (r : Ref .dict) (f : Dict → Dict) : Eval Unit :=
  modify fun h => { h with dicts := h.dicts.modify r f }

/-- Assigns a cell. -/
def setCell (r : Ref .cell) (v : Value) : Eval Unit :=
  modify fun h => { h with cells := h.cells.set r (some v) }

/-- Moves an iterator. -/
def setIter (r : Ref .iter) (it : Iter) : Eval Unit :=
  modify fun h => { h with iters := h.iters.set r it }

/-- Changes a namespace. -/
def modifyNames (r : Ref .namespace) (f : Namespace → Namespace) : Eval Unit :=
  modify fun h => { h with namespaces := h.namespaces.modify r f }

end Eval

end StackVM
