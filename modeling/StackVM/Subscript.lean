/-
Items of values: membership, and reading, storing and deleting by index or key.
A negative index counts from the end.

* `Value.position`: the position an index designates;
* `Value.contains`, `Value.getItem`, `Value.setItem`, `Value.deleteItem`.
-/
import StackVM.Text.Quoted
import StackVM.Value.Equality
import StackVM.Value.Text

namespace StackVM

/-- The character at a position of a text. -/
def Text.charAt? (s : String) (i : Nat) : Option Char :=
  (s.drop i).front?

/-- The character at a position is the item there of the list of characters. -/
theorem Text.charAt?_eq_getElem? (s : String) (i : Nat) : Text.charAt? s i = s.toList[i]? := by
  rw [charAt?, String.Slice.front?_eq, String.toList_copy_drop, List.head?_drop]

namespace Value

/-- The hash key of a value. -/
def hashKey (v : Value) : Eval HashKey :=
  match v.hashKey? with
  | .ok k => pure k
  | .error t => throw (.unhashable t)

/-- The position in a sequence of `size` items that an index designates, if any. -/
def position? (index : Int64) (size : Nat) : Option Nat :=
  let i := if index.toInt < 0 then index.toInt + size else index.toInt
  if 0 ≤ i ∧ i < size then some i.toNat else Option.none

/-- The position in a sequence of type `t` that `key` designates. -/
def position (t : TypeTag) (key : Value) (size : Nat) : Eval Nat :=
  match key.asInt? with
  | Option.none => throw (.badIndexType t key.typeTag)
  | some index =>
    match position? index size with
    | some i => pure i
    | Option.none => throw (.indexOutOfRange t)

/-- The item at a position, which is in bounds. -/
def itemAt (t : TypeTag) (item : Option Value) : Eval Value :=
  match item with
  | some v => pure v
  | Option.none => throw (.indexOutOfRange t)

/-- Membership in a range; a float counts if it is an integer well inside the
64-bit range. -/
def inRange (r : Range) : Value → Bool
  | .float d =>
    match d.integral? with
    | some i => i.natAbs < 9000000000000000000 && r.contains (Int64.ofInt i)
    | Option.none => false
  | v => v.asInt?.any r.contains

/-- Whether `item` is in `v`. -/
def contains (v item : Value) : Eval Bool := do
  match v, item with
  | .str _ s, .str _ t => return s.contains t
  | .str _ _, _ => throw (.noSubstringTest item.typeTag)
  | .tuple _ items, _ => return items.any ((← get).eq · item)
  | .list r, _ => return ((← get).list r).any ((← get).eq · item)
  | .dict r, _ => return ((← get).dict r).contains (← item.hashKey)
  | .range r, _ => return inRange r item
  | _, _ => throw (.notContainer v.typeTag)

/-- The item of `v` at an index or key. -/
def getItem (v key : Value) : Eval Value := do
  match v with
  | .dict r =>
    match ((← get).dict r).get? (← key.hashKey) with
    | some value => return value
    | Option.none => throw (.missingKey ((← get).text key))
  | .list r =>
    let items := (← get).list r
    itemAt .list items[← position .list key items.size]?
  | .tuple _ items => itemAt .tuple items[← position .tuple key items.length]?
  | .str _ s =>
    match Text.charAt? s (← position .str key s.length) with
    | some c => Eval.newStr c.toString
    | Option.none => throw (.indexOutOfRange .str)
  | .range r =>
    match key.asInt? with
    | Option.none => throw (.badIndexType .range key.typeTag)
    | some index => itemAt .range ((r.get? index).map .int)
  | _ => throw (.notSubscriptable v.typeTag)

/-- Stores `value` at an index or key of `v`. -/
def setItem (v key value : Value) : Eval Unit := do
  match v with
  | .dict r =>
    let k ← key.hashKey
    Eval.modifyDict r (·.set k key value)
  | .list r =>
    match key.asInt? with
    | Option.none => throw (.badIndexType .list key.typeTag)
    | some index =>
      match position? index ((← get).list r).size with
      | some i => Eval.modifyList r (·.setIfInBounds i value)
      | Option.none => throw .assignmentOutOfRange
  | _ => throw (.noItemAssignment v.typeTag)

/-- Deletes the item at an index or key of `v`. -/
def deleteItem (v key : Value) : Eval Unit := do
  match v with
  | .dict r =>
    let k ← key.hashKey
    if ((← get).dict r).contains k then Eval.modifyDict r (·.erase k)
    else throw (.missingKey ((← get).text key))
  | .list r =>
    let i ← position .list key ((← get).list r).size
    Eval.modifyList r (·.eraseIdxIfInBounds i)
  | _ => throw (.noItemDeletion v.typeTag)

end Value

end StackVM
