/-
Columns of a listing: a text filled up with blanks to a least width.
-/

namespace StackVM

namespace Text

/-- `n` blanks. -/
def blanks (n : Nat) : String :=
  String.ofList (List.replicate n ' ')

/-- Blanks, then the text. -/
def alignRight (width : Nat) (s : String) : String :=
  blanks (width - s.length) ++ s

/-- The text, then blanks. -/
def alignLeft (width : Nat) (s : String) : String :=
  s ++ blanks (width - s.length)

end Text

end StackVM
