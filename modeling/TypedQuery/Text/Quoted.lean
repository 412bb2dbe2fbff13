import TypedQuery.Text.Invisible
/-!
Text between quotes, written so that every character of it can be told from the page.
-/
namespace TypedQuery
namespace Text

/-- A code point by its number, as `\u` and hexadecimal digits between braces. -/
def byNumber (c : Char) : List Char :=
  ['\\', 'u', '\x7b'] ++ Nat.toDigits 16 c.toNat ++ ['\x7d']

/-- One character of a quoted text. Only the quote in use needs a backslash: the other one
cannot end the text. -/
def escaped (quote c : Char) : List Char :=
  if c = '\x00' then ['\\', '0']
  else if c = '\t' then ['\\', 't']
  else if c = '\r' then ['\\', 'r']
  else if c = '\n' then ['\\', 'n']
  else if c = '\\' || c = quote then ['\\', c]
  else if isInvisible c then byNumber c
  else [c]

/-- `cs` between two quotes. -/
def quoted (quote : Char) (cs : List Char) : String :=
  String.ofList (quote :: cs.flatMap (escaped quote) ++ [quote])

end Text
end TypedQuery
