/-
  `Value` — the data that a YAML text holds.

  The tag of a scalar decides how its text becomes a value. Collections become lists and
  mappings. Of a mapping only the entries with text as key are kept; of two entries with
  one key the later one counts.
-/
import BoundaryTypes.Yaml.Scalar

namespace BoundaryTypes.Yaml

/-- What a YAML text holds. -/
inductive Value where
  | null
  | bool (b : Bool)
  | int (n : Int)
  | float (x : Float)
  | text (s : String)
  | list (items : List Value)
  | mapping (entries : List (String × Value))
  /-- A value that no setting can use: a point in time, bytes, a set, or what lies too deep. -/
  | other (isEmpty : Bool)
deriving Repr

namespace Value

/-- Whether a value counts as nothing: nothing itself, false, zero, and what is empty. -/
def isNothing : Value → Bool
  | .null => true
  | .bool b => !b
  | .int n => n == 0
  | .float x => x == 0.0
  | .text s => s.isEmpty
  | .list items => items.isEmpty
  | .mapping entries => entries.isEmpty
  | .other isEmpty => isEmpty

/-- The text of a value that is one. -/
def text? : Value → Option String
  | .text s => some s
  | _ => none

/-- The value of a scalar. -/
def ofScalar (tag : Tag) (text : String) : Except Fault Value := do
  let s := text.toList
  match tag with
  | .null => pure .null
  | .bool => pure (.bool (← truthOf s))
  | .int => pure (.int (← integerOf s))
  | .float => pure (.float (← fractionOf s))
  | .text => pure (.text text)
  | .timestamp =>
    checkTime s
    pure (.other false)
  | .binary => if isBytes s then pure (.other !(s.any isBase64)) else throw .malformed
  -- Keys alone have the other kinds, and there they stand for something else.
  | _ => throw .malformed

end Value

/-- How YAML texts are read. The texts of a value hold no halves of surrogate pairs. -/
abbrev Parser := String → Except Fault Value

end BoundaryTypes.Yaml
