/-
Raised exceptions: an instance on its way through the frames, with the places it
has come through.

* `Raised.traceback`: those places, the origin first;
* `Raised.report`: the report on an exception that nothing caught;
* `Fault`: what the handler of an instruction fails with.
-/
import StackVM.Exception.Cause
import StackVM.Value.Text

namespace StackVM

/-- A place in a running program: a code object and an offset in it. -/
structure Place where
  code : String
  offset : Nat
deriving DecidableEq, Repr, Inhabited

/-- An exception that has been raised. -/
structure Raised where
  exc : ExcObject
  /-- Where it was raised. -/
  origin : Place
  /-- The calls it has left, the latest first. -/
  callers : List Place
deriving DecidableEq, Repr, Inhabited

namespace Raised

/-- The places an exception has come through, the origin first. -/
def traceback (r : Raised) : List Place :=
  r.origin :: r.callers.reverse

/-- The exception after it has left a call made at `p`. -/
def addCaller (r : Raised) (p : Place) : Raised :=
  { r with callers := p :: r.callers }

/-- The report on an exception that nothing caught: the places, the outermost
first, the class, and the message unless it is empty. -/
def report (r : Raised) : String :=
  let lines := (r.callers ++ [r.origin]).map fun p => s!"  in {p.code} at offset {p.offset}\n"
  let message := r.exc.message
  "Traceback (most recent call last):\n" ++ String.join lines ++ r.exc.cls.name ++
    if message.isEmpty then "" else ": " ++ message

/-- An exception that has left one more call has one more place at its end. -/
theorem traceback_addCaller (r : Raised) (p : Place) :
    (r.addCaller p).traceback = r.traceback ++ [p] := by
  simp [traceback, addCaller]

end Raised

/-- Faults of the machine itself. -/
inductive Internal where
  | stackUnderflow
  | noActiveFrame
  | frameUnderflow
  | missingException
  | cellOutOfRange
  | unexpectedOperand (offset : Nat)
  | notAnInstance
deriving DecidableEq, Repr, Inhabited

/-- The text of a fault of the machine. -/
def Internal.message : Internal → String
  | .stackUnderflow => "operand stack underflow"
  | .noActiveFrame => "no active frame"
  | .frameUnderflow => "frame stack underflow"
  | .missingException => "exception signal without an exception"
  | .cellOutOfRange => "cell index out of range"
  | .unexpectedOperand offset => s!"unexpected operand at offset {offset}"
  | .notAnInstance => "exception constructor returned a non-exception"

/-- What an instruction or a call fails with. -/
inductive Fault where
  | cause (c : Cause)
  /-- An instance that the program raises. -/
  | thrown (e : ExcObject)
  /-- An exception that comes out of a call. -/
  | propagated (r : Raised)
  | internal (i : Internal)
deriving DecidableEq, Inhabited

namespace Fault

/-- A new exception of a class with a message, raised at `p`. -/
def fresh (cls : ExcClass) (message : String) (p : Place) (h : Heap) : Raised × Heap :=
  let (ident, h) := h.freshIdent
  (⟨⟨ident, cls, some message⟩, p, []⟩, h)

/-- The exception that a fault at `p` is raised as. One that comes out of a call
keeps its origin. -/
def raisedAt (f : Fault) (p : Place) (h : Heap) : Raised × Heap :=
  match f with
  | .cause c => fresh c.cls c.message p h
  | .thrown e => (⟨e, p, []⟩, h)
  | .propagated r => (r.addCaller p, h)
  | .internal i => fresh .runtimeError ("Internal error in pyframe: " ++ i.message) p h

end Fault

end StackVM
