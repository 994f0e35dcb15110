/-
  `Position` — where a fault lies in a text, and what its message says.

  Places are counted in characters: the offset from 0, line and column from 1, lines
  ended by `\n`. A message gives all three.
-/
import BoundaryTypes.Json.Reader

namespace BoundaryTypes.Json

/-- A place in a text. -/
structure Position where
  line : Nat
  column : Nat
  offset : Nat
deriving DecidableEq, Repr

/-- The place before which the characters `before` stand. -/
def Position.after (before : List Char) : Position where
  line := before.count '\n' + 1
  column := (before.reverse.takeWhile (· != '\n')).length + 1
  offset := before.length

/-- A fault with its place. -/
structure Problem where
  reason : Reason
  position : Position
deriving DecidableEq, Repr

/-- The place of a fault of the text `s`. -/
def Fault.locate (f : Fault) (s : List Char) : Problem :=
  ⟨f.reason, Position.after (s.take (s.length - f.remaining))⟩

/-- What a reader expected or refused. -/
def Reason.message : Reason → String
  | .value => "Expecting value"
  | .memberName => "Expecting property name enclosed in double quotes"
  | .colon => "Expecting ':' delimiter"
  | .comma => "Expecting ',' delimiter"
  | .unterminated => "Unterminated string starting at"
  | .control => "Invalid control character at"
  | .escape => "Invalid \\escape"
  | .unicodeEscape => "Invalid \\uXXXX escape"
  | .extra => "Extra data"
  | .byteOrderMark => "Unexpected UTF-8 BOM (decode using utf-8-sig)"

/-- The message of a fault with its place. -/
def Problem.message (p : Problem) : String :=
  p.reason.message ++ ": line " ++ toString p.position.line ++ " column "
    ++ toString p.position.column ++ " (char " ++ toString p.position.offset ++ ")"

/-- The document that a whole text holds. -/
def read (s : String) : Except Problem Json :=
  (readWhole s.toList).mapError fun f => f.locate s.toList

end BoundaryTypes.Json
