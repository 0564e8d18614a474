/-
Limits on what a run may use: the depth of calls and the size of sequences.

* `Limits.checkDepth`: whether one more frame fits;
* `checkSequence`: whether a sequence fits.
-/
import StackVM.Exception.Cause

namespace StackVM

/-- Limits of a run. -/
structure Limits where
  /-- Number of frames that may be active, if it is bounded. -/
  depth : Option Nat := some 1000
deriving DecidableEq, Repr, Inhabited

/-- A limit that was exceeded. -/
inductive LimitError where
  | depth (limit : Nat)
  | sequence (items : Nat)
deriving DecidableEq, Repr, Inhabited

/-- Largest size of a sequence, in bytes. -/
def maxSequenceBytes : Nat := 1073741824

/-- Size of a value in a list or tuple, in bytes. -/
def valueBytes : Nat := 32

/-- The text of an exceeded limit. -/
def LimitError.message : LimitError → String
  | .depth limit => s!"maximum recursion depth ({limit}) exceeded"
  | .sequence items => s!"sequence of {items} items exceeds {maxSequenceBytes} bytes"

/-- The exception that an exceeded limit is raised as. -/
def LimitError.cause : LimitError → Cause
  | .depth _ => .recursionLimit
  | .sequence items => .sequenceTooLarge items

/-- Whether a frame fits on top of `frames` active ones. -/
def Limits.checkDepth (l : Limits) (frames : Nat) : Except LimitError Unit :=
  match l.depth with
  | some limit => if limit ≤ frames then .error (.depth limit) else .ok ()
  | none => .ok ()

/-- Whether `items` items of `itemBytes` bytes each fit. -/
def checkSequence (items itemBytes : Nat) : Except LimitError Unit :=
  if items * itemBytes ≤ maxSequenceBytes then .ok () else .error (.sequence items)

end StackVM
