/-
The log of a machine: what it does, in order, as far as its level asks for it.

* `LogEvent.text`: the line of an event;
* `Log.add`: records an event if the level admits it.
-/
import StackVM.Listing
import StackVM.Machine.Frame

namespace StackVM

/-- How much a log records. -/
inductive LogLevel where
  | silent
  | debug
  | trace
deriving DecidableEq, Repr, Inhabited

/-- What a machine does. -/
inductive LogEvent where
  /-- A frame is entered; `depth` frames are active then. -/
  | enter (code : String) (depth : Nat)
  /-- A frame ends; `depth` frames are left. -/
  | leave (code : String) (signal : Signal) (depth : Nat)
  /-- An exception arises in a frame, or comes into it out of a call. -/
  | raised (cls : ExcClass) (place : Place)
  /-- A block takes a signal. -/
  | consumed (block : BlockKind) (code : String) (signal : Signal) (handler : Nat)
  /-- An instruction is about to be executed. -/
  | instruction (code : Code) (i : Instruction)
deriving Inhabited

namespace LogEvent

/-- The instructions are recorded at the finest level only. -/
def isTrace : LogEvent → Bool
  | .instruction _ _ => true
  | _ => false

/-- The text of an event. -/
def message : LogEvent → String
  | .enter code depth => s!"enter {code} (depth {depth})"
  | .leave code signal depth => s!"leave {code} with {signal.name} (depth {depth})"
  | .raised cls place => s!"{place.code} raised {cls.name} at offset {place.offset}"
  | .consumed block code signal handler =>
    s!"{block.name} block in {code} consumed {signal.name}, jumping to {handler}"
  | .instruction code i => s!"{code.name}: {i.line code}"

/-- The line of an event: its level and its text. -/
def text (e : LogEvent) : String :=
  (if e.isTrace then "TRACE " else "DEBUG ") ++ e.message

end LogEvent

/-- A log: its level and what it has recorded. -/
structure Log where
  level : LogLevel := .silent
  events : Array LogEvent := #[]
deriving Inhabited

/-- Whether a level asks for an event. -/
@[inline] def LogLevel.admits (l : LogLevel) (e : LogEvent) : Bool :=
  match l with
  | .silent => false
  | .debug => !e.isTrace
  | .trace => true

/-- Records an event if the level asks for it. -/
@[inline] def Log.add (l : Log) (e : LogEvent) : Log :=
  if l.level.admits e then { l with events := l.events.push e } else l

end StackVM
