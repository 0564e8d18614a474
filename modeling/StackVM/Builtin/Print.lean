/-
Printing: what a call of `print` puts out.

* `Output`: one action on the output;
* `Builtin.printed`: the actions of a call.
-/
import StackVM.Call.Args
import StackVM.Value.Size
import StackVM.Value.Text

namespace StackVM

/-- An action on the output. -/
inductive Output where
  | write (text : String)
  | flush
deriving DecidableEq, Repr, Inhabited

/-- The text that a series of actions puts out. -/
def Output.text (os : List Output) : String :=
  String.join (os.map fun
    | .write s => s
    | .flush => "")

namespace Builtin

/-- Options of a call of `print`. -/
structure PrintOptions where
  separator : String := " "
  terminator : String := "\n"
  flush : Bool := false
deriving DecidableEq, Repr, Inhabited

/-- The text of an option; the none value stands for the default. -/
def optionText (option preset : String) : Value → Except Cause String
  | .none => .ok preset
  | .str _ s => .ok s
  | v => .error (.badPrintOption option v.typeTag)

namespace PrintOptions

/-- The options after one more keyword. -/
def set (h : Heap) (o : PrintOptions) (k : Keyword) : Except Cause PrintOptions :=
  if k.name = "sep" then
    (optionText "sep" " " k.value).map fun s => { o with separator := s }
  else if k.name = "end" then
    (optionText "end" "\n" k.value).map fun s => { o with terminator := s }
  else if k.name = "flush" then
    .ok { o with flush := h.truth k.value }
  else
    .error (.unknownPrintOption k.name)

/-- The options after the keywords, in order. -/
def ofKeywords (h : Heap) : PrintOptions → List Keyword → Except Cause PrintOptions
  | o, [] => .ok o
  | o, k :: ks =>
    match o.set h k with
    | .ok o => ofKeywords h o ks
    | .error c => .error c

end PrintOptions

/-- The actions of a call of `print`: the shown values with separators between
them, the terminator, and a flush if it is asked for. -/
def printed (h : Heap) (args : Args) : Except Cause (List Output) :=
  match PrintOptions.ofKeywords h {} args.keywords with
  | .error c => .error c
  | .ok o =>
    let shown := args.positional.map fun v => Output.write (h.shown v)
    .ok (shown.intersperse (.write o.separator) ++ [.write o.terminator] ++
      if o.flush then [.flush] else [])

end Builtin

end StackVM
