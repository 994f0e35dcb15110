/-
  `Blank` — the white space of Unicode, and text with its blank ends removed.

  White space here is the Unicode property together with the four separators
  U+001C to U+001F: twenty-nine characters. The zero width characters U+200B and
  U+FEFF are no white space.
-/
import BoundaryTypes.Text.CodePoints

namespace BoundaryTypes.Text

/-- The code points of white space. -/
def blankRanges : CodePoints :=
  [(0x09, 0x0D), (0x1C, 0x20), (0x85, 0x85), (0xA0, 0xA0), (0x1680, 0x1680), (0x2000, 0x200A),
   (0x2028, 0x2029), (0x202F, 0x202F), (0x205F, 0x205F), (0x3000, 0x3000)]

/-- A blank is a character of Unicode white space. -/
def isBlank (c : Char) : Bool := blankRanges.contains c.toNat

/-- The text without the blanks before its first and after its last other character. -/
def trimBlank (s : List Char) : List Char :=
  ((s.dropWhile isBlank).reverse.dropWhile isBlank).reverse

/-- `trimBlank` on strings. -/
def stripBlank (s : String) : String := String.ofList (trimBlank s.toList)

end BoundaryTypes.Text
