/-
Escaped text: a text between double quotes in which every character that would not
be seen is written by its code point.

* `Text.escaped`: the text with its quotes.
-/
import StackVM.Text.Unseen

namespace StackVM

namespace Text

/-- A character by its code point in hexadecimal. -/
def codePoint (c : Char) : List Char :=
  '\\' :: 'u' :: '\x7b' :: (Nat.toDigits 16 c.toNat ++ ['\x7d'])

/-- A character as it stands between double quotes. -/
def escapedChar (c : Char) : List Char :=
  match c with
  | '\x00' => ['\\', '0']
  | '\t' => ['\\', 't']
  | '\r' => ['\\', 'r']
  | '\n' => ['\\', 'n']
  | '\\' => ['\\', '\\']
  | '"' => ['\\', '"']
  | c => if isUnseen c then codePoint c else [c]

/-- A text between double quotes. -/
def escaped (s : String) : String :=
  String.ofList ('"' :: (s.toList.flatMap escapedChar ++ ['"']))

end Text

end StackVM
