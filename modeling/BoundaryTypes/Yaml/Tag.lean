/-
  `Tag` — what a node of a document is.

  A tag is a text that names the kind of a node. The tags of the standard kinds differ
  in their last word, and every other tag is `unknown`. Two kinds matter for keys
  alone: `merge`, written `<<`, puts in the entries of other mappings, and `value`,
  written `=`, leads to the text of a mapping whose own tag makes it a scalar.
-/

namespace BoundaryTypes.Yaml

/-- What a node is. -/
inductive Tag where
  | null
  | bool
  | int
  | float
  | timestamp
  | binary
  | text
  | sequence
  | mapping
  | set
  /-- A list of single entries whose order counts. -/
  | orderedMap
  /-- A list of single entries whose keys need not differ. -/
  | pairs
  | merge
  | value
  | unknown
deriving DecidableEq, Repr

/-- The tags of the standard kinds begin with this. -/
def standardTag (word : String) : String := "tag:yaml.org,2002:" ++ word

namespace Tag

/-- The standard kinds with the last words of their tags. -/
def words : List (String × Tag) :=
  [("null", .null), ("bool", .bool), ("int", .int), ("float", .float), ("timestamp", .timestamp),
    ("binary", .binary), ("str", .text), ("seq", .sequence), ("map", .mapping), ("set", .set),
    ("omap", .orderedMap), ("pairs", .pairs), ("merge", .merge), ("value", .value)]

/-- The kind that a tag names. -/
def ofText (tag : String) : Tag :=
  ((words.find? fun w => standardTag w.1 = tag).map (·.2)).getD .unknown

/-- Whether nodes of the kind hold other nodes. -/
def isCollection : Tag → Bool
  | .sequence | .mapping | .set | .orderedMap | .pairs => true
  | _ => false

end Tag

end BoundaryTypes.Yaml
