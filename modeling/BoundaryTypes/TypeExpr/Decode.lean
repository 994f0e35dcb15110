/-
  `Decode` — a type read from a JSON node.

  A node is an object with a `kind`, or the bare name of a kind, which is short for
  an object with nothing else in it. The members that a kind needs are looked up by
  name; other members are ignored. A record's fields may be a list of entries or an
  object from names to types. A fault carries the route to the node it was found at.
-/
import BoundaryTypes.TypeExpr.Basic
import BoundaryTypes.TypeFault

namespace BoundaryTypes.TypeExpr

/-- A fault found at the end of a route. -/
def refuse {α : Type} (route : Route) (cause : Cause) : Except TypeFault α := .error ⟨cause, route⟩

/-- The kind of a node. -/
def kindOf (members : List (String × Json)) (route : Route) : Except TypeFault String :=
  match Json.member? members "kind" with
  | some (.string kind) => .ok kind
  | _ => refuse route .kindMissing

/-- The name of an alias or a reference, which must not be empty. -/
def nameOf (kind : String) (members : List (String × Json)) (route : Route) :
    Except TypeFault String :=
  match Json.member? members "name" with
  | none => refuse route (.keyMissing kind "name")
  | some (.string name) => if name = "" then refuse route .aliasNameEmpty else .ok name
  | some _ => refuse route .aliasNameEmpty

/-- What a kind says about its node. -/
inductive NodeKind where
  | primitive (kind : Primitive)
  | listOf
  | dictOf
  | literal
  | optional
  | record
  | union
  | alias
  | reference
  | json
deriving DecidableEq, Repr

/-- The kinds by their names. -/
def nodeKinds : List (String × NodeKind) :=
  [("string", .primitive .string), ("number", .primitive .number),
   ("boolean", .primitive .boolean), ("null", .primitive .null),
   ("list", .listOf), ("dict", .dictOf), ("literal", .literal), ("optional", .optional),
   ("record", .record), ("union", .union), ("alias", .alias), ("ref", .reference),
   ("json", .json)]

/-- The kind of a name. -/
def NodeKind.ofName? (name : String) : Option NodeKind :=
  (nodeKinds.find? fun k => k.1 = name).map (·.2)

/-- The type of a node that holds nothing but its kind: a kind that needs no other member has one,
for the others the first member that is missing is named. -/
def ofBareKind (route : Route) (kind : String) : Except TypeFault TypeExpr :=
  match NodeKind.ofName? kind with
  | none => refuse route (.unknownKind kind)
  | some (.primitive k) => .ok (.primitive k)
  | some .json => .ok jsonValue
  | some .listOf => refuse route (.keyMissing kind "element")
  | some .dictOf | some .literal => refuse route (.keyMissing kind "value")
  | some .optional => refuse route (.keyMissing kind "inner")
  | some .record => refuse route (.keyMissing kind "fields")
  | some .union => refuse route (.keyMissing kind "variants")
  | some .alias | some .reference => refuse route (.keyMissing kind "name")

/-- The text of a literal. -/
def literalOf (kind : String) (members : List (String × Json)) (route : Route) :
    Except TypeFault TypeExpr :=
  match Json.member? members "value" with
  | none => refuse route (.keyMissing kind "value")
  | some (.string s) => .ok (.literal s)
  | some _ => refuse route .literalNotText

/-- The step into a field: its name, or a word for the empty name. -/
def fieldStep (name : String) : String := if name = "" then "<empty>" else name

/-- The step into a variant. -/
def variantStep (index : Nat) : String := "#" ++ toString index

/-- Whether an entry of a list of fields is an object with a name and a type. -/
def isFieldEntry : Json → Bool
  | .object members =>
    (Json.member? members "name").isSome && (Json.member? members "type").isSome
  | _ => false

/-- A variant is a record or a literal. -/
def isVariant : TypeExpr → Bool
  | .record _ | .literal _ => true
  | _ => false

mutual

/-- The type of a node. -/
def ofJson (route : Route) : Json → Except TypeFault TypeExpr
  | .string kind => ofBareKind route kind
  | .object members => do
    let kind ← kindOf members route
    match NodeKind.ofName? kind with
    | none => refuse route (.unknownKind kind)
    | some (.primitive k) => pure (.primitive k)
    | some .listOf => (ofMember kind "element" (route ++ [listStep]) route members).map .listOf
    | some .dictOf => (ofMember kind "value" (route ++ [dictStep]) route members).map .dictOf
    | some .literal => literalOf kind members route
    | some .optional => (ofMember kind "inner" route route members).map .optional
    | some .record => (ofFieldsMember route members).map .record
    | some .union => (ofVariantsMember route members).map .union
    | some .alias =>
      let name ← nameOf kind members route
      (ofMember kind "definition" (route ++ [name]) route members).map (.alias name)
    | some .reference => (nameOf kind members route).map .reference
    | some .json => pure jsonValue
  | _ => refuse route .nodeNotObject

/-- The type that the member `key` of a node holds; `inner` is the route to it. -/
def ofMember (kind key : String) (inner route : Route) :
    List (String × Json) → Except TypeFault TypeExpr
  | [] => refuse route (.keyMissing kind key)
  | (name, v) :: rest => if name = key then ofJson inner v else ofMember kind key inner route rest

/-- The fields of a record node. -/
def ofFieldsMember (route : Route) :
    List (String × Json) → Except TypeFault (List (String × TypeExpr))
  | [] => refuse route (.keyMissing "record" "fields")
  | (name, v) :: rest =>
    if name = "fields" then
      match v with
      | .object entries => ofEntries route entries
      | .array items =>
        -- The shape of all entries is judged before any of their types.
        if items.all isFieldEntry then ofFieldItems route items else refuse route .fieldEntryShape
      | _ => refuse route .fieldsShape
    else ofFieldsMember route rest

/-- Fields written as an object from names to types. -/
def ofEntries (route : Route) : List (String × Json) → Except TypeFault (List (String × TypeExpr))
  | [] => .ok []
  | (name, v) :: rest => do
    let e ← ofJson (route ++ [fieldStep name]) v
    let es ← ofEntries route rest
    pure ((name, e) :: es)

/-- Fields written as a list of entries. -/
def ofFieldItems (route : Route) : List Json → Except TypeFault (List (String × TypeExpr))
  | [] => .ok []
  | .object members :: rest => do
    match Json.member? members "name" with
    | some (.string name) =>
      let e ← ofMember "record" "type" (route ++ [fieldStep name]) route members
      let es ← ofFieldItems route rest
      pure ((name, e) :: es)
    | other => refuse route (.fieldNameNotText (other.getD .null))
  | _ :: _ => refuse route .fieldEntryShape

/-- The variants of a union node. -/
def ofVariantsMember (route : Route) : List (String × Json) → Except TypeFault (List TypeExpr)
  | [] => refuse route (.keyMissing "union" "variants")
  | (name, v) :: rest =>
    if name = "variants" then
      match v with
      | .array items => ofVariants route 0 items
      | _ => refuse route .variantsNotList
    else ofVariantsMember route rest

/-- The variants of a union, from the one with the index on. -/
def ofVariants (route : Route) (index : Nat) : List Json → Except TypeFault (List TypeExpr)
  | [] => .ok []
  | v :: rest => do
    let e ← ofJson (route ++ [variantStep index]) v
    if isVariant e then
      let es ← ofVariants route (index + 1) rest
      pure (e :: es)
    else refuse route (.variantShape index)

end

end BoundaryTypes.TypeExpr
