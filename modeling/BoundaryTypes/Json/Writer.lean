/-
  `Writer` — JSON values as text.

  On one line the separators are `, ` and `: `. With an indent every element and
  every member stands on a line of its own, indented by its depth, and a comma ends
  the line before. Empty lists and objects are written without a break in both.
-/
import BoundaryTypes.Decimal.Layout
import BoundaryTypes.Json.Basic
import BoundaryTypes.Json.Quoted

namespace BoundaryTypes.Json

/-- A number that is no finite one has a name. -/
def realText (x : Float) : String :=
  if x.isNaN then "NaN"
  else if x.isInf then (if x < 0.0 then "-Infinity" else "Infinity")
  else Decimal.natural x

/-- The breaks of a layout at a depth: what opens a container, what stands between its parts, what
closes it. -/
structure Breaks where
  opening : String
  between : String
  closing : String

/-- The breaks at a depth: none on one line, otherwise a line end and the indent. -/
def Breaks.at (indent : Option Nat) (depth : Nat) : Breaks :=
  match indent with
  | none => ⟨"", ", ", ""⟩
  | some width =>
    let line (d : Nat) := "\n" ++ String.ofList (List.replicate (width * d) ' ')
    ⟨line (depth + 1), "," ++ line (depth + 1), line depth⟩

/-- The parts of a container between its brackets. -/
def Breaks.wrap (b : Breaks) (left right : String) (parts : List String) : String :=
  if parts.isEmpty then left ++ right
  else left ++ b.opening ++ b.between.intercalate parts ++ b.closing ++ right

mutual

/-- The text of a value that stands at a depth. -/
def writeAt (indent : Option Nat) (depth : Nat) : Json → String
  | .null => "null"
  | .bool b => if b then "true" else "false"
  | .int n => toString n
  | .real x => realText x
  | .string s => quote s
  | .array elements => (Breaks.at indent depth).wrap "[" "]" (writeElements indent depth elements)
  | .object members =>
    (Breaks.at indent depth).wrap "\x7b" "\x7d" (writeMembers indent depth members)

/-- The texts of the elements of a list. -/
def writeElements (indent : Option Nat) (depth : Nat) : List Json → List String
  | [] => []
  | v :: rest => writeAt indent (depth + 1) v :: writeElements indent depth rest

/-- The texts of the members of an object. -/
def writeMembers (indent : Option Nat) (depth : Nat) : List (String × Json) → List String
  | [] => []
  | (name, v) :: rest =>
    (quote name ++ ": " ++ writeAt indent (depth + 1) v) :: writeMembers indent depth rest

end

/-- The text of a value; `indent` is the width of one level, or `none` for one line. -/
def write (indent : Option Nat) (v : Json) : String := writeAt indent 0 v

end BoundaryTypes.Json
