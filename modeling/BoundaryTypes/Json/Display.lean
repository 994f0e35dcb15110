/-
  `Display` — how a message shows a JSON value.

  Texts are shown as `Text.display` shows them, null and the truth values by their
  capitalised names, lists and objects in brackets with `, ` and `: ` between their
  parts.
-/
import BoundaryTypes.Decimal.Layout
import BoundaryTypes.Json.Basic
import BoundaryTypes.Text.Display

namespace BoundaryTypes.Json

mutual

/-- A value in a message. -/
def display : Json → String
  | .null => "None"
  | .bool b => if b then "True" else "False"
  | .int n => toString n
  | .real x => Decimal.natural x
  | .string s => Text.display s
  | .array elements => "[" ++ ", ".intercalate (displayElements elements) ++ "]"
  | .object members => "\x7b" ++ ", ".intercalate (displayMembers members) ++ "\x7d"

/-- The elements of a list in a message. -/
def displayElements : List Json → List String
  | [] => []
  | v :: rest => v.display :: displayElements rest

/-- The members of an object in a message. -/
def displayMembers : List (String × Json) → List String
  | [] => []
  | (name, v) :: rest => (Text.display name ++ ": " ++ v.display) :: displayMembers rest

end

end BoundaryTypes.Json
