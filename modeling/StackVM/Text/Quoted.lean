/-
Quoted text. A text stands between single quotes, or between double quotes if it
holds a single quote and no double quote. A backslash, a line feed, a tab, a
carriage return and the quote itself are escaped.

* `Text.quote`: the quoted form of a text.
-/

namespace StackVM

namespace Text

/-- The quote a text is put between. -/
def quoteChar (cs : List Char) : Char :=
  if cs.contains '\'' && !cs.contains '"' then '"' else '\''

/-- The written form of one character between quotes `q`. -/
def escapeChar (q c : Char) : List Char :=
  if c = '\\' then ['\\', '\\']
  else if c = '\n' then ['\\', 'n']
  else if c = '\t' then ['\\', 't']
  else if c = '\r' then ['\\', 'r']
  else if c = q then ['\\', c]
  else [c]

/-- The written form of characters between quotes `q`. -/
def escape (q : Char) (cs : List Char) : List Char :=
  cs.flatMap (escapeChar q)

/-- The quoted form of a list of characters. -/
def quoteList (cs : List Char) : List Char :=
  let q := quoteChar cs
  q :: escape q cs ++ [q]

/-- The quoted form of a text. -/
def quote (s : String) : String :=
  String.ofList (quoteList s.toList)

end Text

end StackVM
