/-
Hash keys: what a dict finds its entries by. Numbers that are equal share a key;
functions, code objects, exception instances and cells have keys by identity.

* `HashKey`, with decidable equality and a hash;
* `Value.hashKey?`: the key of a value, or the type that has none.
-/
import StackVM.Value.Basic

namespace StackVM

/-- What a dict finds an entry by. -/
inductive HashKey where
  | none
  | int (i : Int64)
  /-- A float that is no 64-bit integer, by its bits. -/
  | float (bits : UInt64)
  | str (s : String)
  | tuple (items : List HashKey)
  | range (start size step : Int64)
  | builtin (b : Builtin)
  | excClass (c : ExcClass)
  | function (ref : Ref .function)
  | code (ident : Ident)
  | exception (ident : Ident)
  | cell (ref : Ref .cell)
deriving Inhabited

namespace HashKey

mutual

/-- Equality test. -/
def beq : HashKey → HashKey → Bool
  | .none, .none => true
  | .int a, .int b => a == b
  | .float a, .float b => a == b
  | .str a, .str b => a == b
  | .tuple xs, .tuple ys => beqAll xs ys
  | .range a n s, .range a' n' s' => a == a' && n == n' && s == s'
  | .builtin a, .builtin b => a == b
  | .excClass a, .excClass b => a == b
  | .function a, .function b => a == b
  | .code a, .code b => a == b
  | .exception a, .exception b => a == b
  | .cell a, .cell b => a == b
  | _, _ => false
termination_by structural k => k

/-- Equality test of lists. -/
def beqAll : List HashKey → List HashKey → Bool
  | [], [] => true
  | x :: xs, y :: ys => beq x y && beqAll xs ys
  | _, _ => false
termination_by structural ks => ks

end

mutual

/-- The test decides equality. -/
theorem beq_eq_true_iff : ∀ a b : HashKey, beq a b = true ↔ a = b
  | .tuple xs, b => by
    cases b <;> simp [beq, beqAll_eq_true_iff xs]
  | .none, b => by cases b <;> simp [beq]
  | .int _, b => by cases b <;> simp [beq]
  | .float _, b => by cases b <;> simp [beq]
  | .str _, b => by cases b <;> simp [beq]
  | .range _ _ _, b => by cases b <;> simp [beq, and_assoc]
  | .builtin _, b => by cases b <;> simp [beq]
  | .excClass _, b => by cases b <;> simp [beq]
  | .function _, b => by cases b <;> simp [beq]
  | .code _, b => by cases b <;> simp [beq]
  | .exception _, b => by cases b <;> simp [beq]
  | .cell _, b => by cases b <;> simp [beq]

/-- The test decides equality of lists. -/
theorem beqAll_eq_true_iff : ∀ xs ys : List HashKey, beqAll xs ys = true ↔ xs = ys
  | [], ys => by cases ys <;> simp [beqAll]
  | x :: xs, ys => by
    cases ys with
    | nil => simp [beqAll]
    | cons y ys => simp [beqAll, beq_eq_true_iff x, beqAll_eq_true_iff xs]

end

instance : DecidableEq HashKey := fun a b =>
  decidable_of_iff (beq a b = true) (beq_eq_true_iff a b)

mutual

/-- The hash of a key. -/
def hash : HashKey → UInt64
  | .none => 1
  | .int i => mixHash 2 i.toUInt64
  | .float bits => mixHash 3 bits
  | .str s => mixHash 4 (Hashable.hash s)
  | .tuple ks => hashAll 5 ks
  | .range start size step =>
    mixHash start.toUInt64 (mixHash size.toUInt64 step.toUInt64)
  | .builtin b => mixHash 6 (Hashable.hash b.name)
  | .excClass c => mixHash 7 (Hashable.hash c.name)
  | .function r => mixHash 8 (Hashable.hash r.index)
  | .code ident => mixHash 9 (Hashable.hash ident)
  | .exception ident => mixHash 10 (Hashable.hash ident)
  | .cell r => mixHash 11 (Hashable.hash r.index)
termination_by structural k => k

/-- The hash of keys in a row, after `seed`. -/
def hashAll (seed : UInt64) : List HashKey → UInt64
  | [] => seed
  | k :: ks => hashAll (mixHash seed (hash k)) ks
termination_by structural ks => ks

end

instance : Hashable HashKey :=
  ⟨hash⟩

/-- The key of a float: that of the integer it is equal to, if it lies well inside
the 64-bit range. -/
def ofDouble (d : Double) : HashKey :=
  match d.integral? with
  | some i => if i.natAbs < 9000000000000000000 then .int (Int64.ofInt i) else .float d.bits
  | Option.none => .float d.bits

/-- The key of a range; a range without members has one key. -/
def ofRange (r : Range) : HashKey :=
  if r.isEmpty then .range 0 0 0
  else .range r.start (Int64.ofNat (min r.size 0x7fffffffffffffff)) r.step

end HashKey

namespace Value

mutual

/-- The hash key of a value, or the type that has none. -/
def hashKey? : Value → Except TypeTag HashKey
  | .none => .ok .none
  | .bool b => .ok (.int (if b then 1 else 0))
  | .int i => .ok (.int i)
  | .float d => .ok (HashKey.ofDouble d)
  | .str _ s => .ok (.str s)
  | .tuple _ xs =>
    match hashKeys? xs with
    | .ok ks => .ok (.tuple ks)
    | .error t => .error t
  | .range r => .ok (HashKey.ofRange r)
  | .builtin b => .ok (.builtin b)
  | .excClass c => .ok (.excClass c)
  | .function r => .ok (.function r)
  | .code c => .ok (.code c.ident)
  | .exception e => .ok (.exception e.ident)
  | .cell r => .ok (.cell r)
  | .list _ => .error .list
  | .dict _ => .error .dict
  | .iter _ => .error .iterator
termination_by structural v => v

/-- The hash keys of values, or the first type that has none. -/
def hashKeys? : List Value → Except TypeTag (List HashKey)
  | [] => .ok []
  | v :: vs =>
    match hashKey? v with
    | .error t => .error t
    | .ok k =>
      match hashKeys? vs with
      | .error t => .error t
      | .ok ks => .ok (k :: ks)
termination_by structural vs => vs

end

end Value

end StackVM
