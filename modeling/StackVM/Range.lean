/-
Ranges: arithmetic progressions of 64-bit integers, kept as start, stop and a
nonzero step.

* `Range.size`: the number of members;
* `Range.nth`, `Range.get?`: the member at a position, and at an index that
  counts from the end when negative;
* `Range.contains`: membership, decided without listing the members;
* `Range.sameMembers`: whether two ranges list the same integers.

Sizes and members are computed over unbounded integers, so bounds at the ends of
the 64-bit range need no care.
-/

namespace StackVM

/-- The integers `start`, `start + step`, ... that lie strictly before `stop` in
the direction of `step`. -/
structure Range where
  start : Int64
  stop : Int64
  step : Int64
  step_ne_zero : step ≠ 0
deriving DecidableEq, Repr

namespace Range

instance : Inhabited Range :=
  ⟨⟨0, 0, 1, by decide⟩⟩

/-- The range with this start, stop and step, if the step is not zero. -/
def make? (start stop step : Int64) : Option Range :=
  if h : step ≠ 0 then some ⟨start, stop, step, h⟩ else none

/-- The range `start`, ..., `stop - 1`. -/
def upTo (start stop : Int64) : Range :=
  ⟨start, stop, 1, by decide⟩

/-- Number of members. -/
def size (r : Range) : Nat :=
  let start := r.start.toInt
  let stop := r.stop.toInt
  let step := r.step.toInt
  if 0 < step ∧ start < stop then
    ((stop - start - 1) / step + 1).toNat
  else if step < 0 ∧ stop < start then
    ((start - stop - 1) / -step + 1).toNat
  else
    0

/-- The range has no member. -/
def isEmpty (r : Range) : Bool :=
  r.size == 0

/-- The value at position `i`, counted from `start`. -/
def nth (r : Range) (i : Nat) : Int64 :=
  Int64.ofInt (r.start.toInt + i * r.step.toInt)

/-- The member at position `i`. -/
def nth? (r : Range) (i : Nat) : Option Int64 :=
  if i < r.size then some (r.nth i) else none

/-- The member at an index; a negative index counts from the end. -/
def get? (r : Range) (index : Int64) : Option Int64 :=
  let i := if index.toInt < 0 then index.toInt + r.size else index.toInt
  if 0 ≤ i then r.nth? i.toNat else none

/-- Whether `v` is a member. -/
def contains (r : Range) (v : Int64) : Bool :=
  let inBounds :=
    if 0 < r.step.toInt then r.start ≤ v && v < r.stop else v ≤ r.start && r.stop < v
  inBounds && (v.toInt - r.start.toInt) % r.step.toInt == 0

/-- Whether two ranges list the same integers. -/
def sameMembers (a b : Range) : Bool :=
  a.size == b.size &&
    (a.isEmpty || (a.start == b.start && (a.size == 1 || a.step == b.step)))

/-- The written form; a step of one is left out. -/
def text (r : Range) : String :=
  if r.step = 1 then
    s!"range({r.start.toInt}, {r.stop.toInt})"
  else
    s!"range({r.start.toInt}, {r.stop.toInt}, {r.step.toInt})"

end Range

end StackVM
