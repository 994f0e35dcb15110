/-
  `Encode` — a type as a JSON node.

  Every node is an object whose `kind` says what the other members are. Record
  fields are a list of names with types, so their order and repeats survive. The
  type of arbitrary JSON has a kind of its own.
-/
import BoundaryTypes.Json.Basic
import BoundaryTypes.TypeExpr.Basic

namespace BoundaryTypes.TypeExpr

mutual

/-- The node of a type. -/
def toJson : TypeExpr → Json
  | .primitive k => .object [("kind", .string k.word)]
  | .listOf e => .object [("kind", .string "list"), ("element", e.toJson)]
  | .dictOf e => .object [("kind", .string "dict"), ("value", e.toJson)]
  | .literal s => .object [("kind", .string "literal"), ("value", .string s)]
  | .optional e => .object [("kind", .string "optional"), ("inner", e.toJson)]
  | .record fields => .object [("kind", .string "record"), ("fields", .array (fieldNodes fields))]
  | .union variants => .object [("kind", .string "union"), ("variants", .array (nodes variants))]
  | .alias n e =>
    if TypeExpr.alias n e = jsonValue then .object [("kind", .string "json")]
    else .object [("kind", .string "alias"), ("name", .string n), ("definition", e.toJson)]
  | .reference n => .object [("kind", .string "ref"), ("name", .string n)]

/-- The nodes of fields, each with its name. -/
def fieldNodes : List (String × TypeExpr) → List Json
  | [] => []
  | (n, e) :: rest => .object [("name", .string n), ("type", e.toJson)] :: fieldNodes rest

/-- The nodes of variants. -/
def nodes : List TypeExpr → List Json
  | [] => []
  | e :: rest => e.toJson :: nodes rest

end

end BoundaryTypes.TypeExpr
