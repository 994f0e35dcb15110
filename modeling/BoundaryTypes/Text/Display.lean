/-
  `Display` — how a message shows a text that came from its reader's input.

  The text stands in single quotes, or in double quotes when it holds single
  quotes and no double ones. A backslash, the chosen quote, line feed, carriage
  return and tab are written with a backslash; a character that is not printable
  is written by its code point with two, four or eight hexadecimal digits. So a
  message that quotes an input is itself always printable, and one line.
-/
import BoundaryTypes.Text.Hex
import BoundaryTypes.Text.Printable

namespace BoundaryTypes.Text

/-- Double quotes serve a text that holds single quotes and no double ones. -/
def displayQuote (s : List Char) : Char :=
  if s.contains '\'' && !s.contains '"' then '"' else '\''

/-- One character between quotes `q`. -/
def displayChar (q c : Char) : List Char :=
  if c = q ∨ c = '\\' then ['\\', c]
  else if c = '\n' then ['\\', 'n']
  else if c = '\r' then ['\\', 'r']
  else if c = '\t' then ['\\', 't']
  else if isPrintable c then [c]
  else if c.toNat < 0x100 then '\\' :: 'x' :: hexPadded 2 c.toNat
  else if c.toNat < 0x10000 then '\\' :: 'u' :: hexPadded 4 c.toNat
  else '\\' :: 'U' :: hexPadded 8 c.toNat

/-- The quoted form of a text in a message. -/
def displayChars (s : List Char) : List Char :=
  let q := displayQuote s
  q :: s.flatMap (displayChar q) ++ [q]

/-- `displayChars` on strings. -/
def display (s : String) : String := String.ofList (displayChars s.toList)

end BoundaryTypes.Text
