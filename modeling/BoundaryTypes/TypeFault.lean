/-
  `TypeFault` — why a type is refused, and where.

  A fault is a cause together with the route to it: the names of aliases, variants
  and fields, `[]` into a list and `{}` into a map, from the outside in. Causes fall
  into six categories, which a caller may tell apart without reading the words.
-/
import BoundaryTypes.Identifier
import BoundaryTypes.Json.Display
import BoundaryTypes.Json.Position

namespace BoundaryTypes

/-- A route to a part of a type: one label for each step. -/
abbrev Route := List String

/-- The step into the elements of a list. -/
def listStep : String := "[]"

/-- The step into the values of a map. -/
def dictStep : String := "\x7b\x7d"

/-- Why a type, or the message that holds it, is refused. -/
inductive Cause where
  | notJson (problem : Json.Problem)
  | notAnObject
  | moduleNameMissing
  | outboundNotUnion
  | nodeNotObject
  | kindMissing
  | unknownKind (kind : String)
  | keyMissing (kind key : String)
  | literalNotText
  | fieldEntryShape
  | fieldsShape
  | fieldNameNotText (name : Json)
  | variantsNotList
  | variantShape (index : Nat)
  | aliasNameEmpty
  | notTypeName (name : String)
  | wrapperClash (name : String)
  | jsonValueRedefined
  | conflictingAlias (name : String)
  | unresolved (name : String)
  | optionalOutsideField
  | emptyFieldName
  | repeatedField (name : String)
  | mixedUnion
  | tagMissing (index : Nat)
  | repeatedTag (tag : String)
  | invalidModuleName (name : String)
  | messageNotUnion (formName : String)

/-- The categories of causes. -/
inductive Category where
  | malformedField
  | emptyFieldName
  | duplicateTag
  | unresolvedAlias
  | unsupportedShape
  | aliasConflict
deriving DecidableEq, Repr

/-- The public name of a category. -/
def Category.name : Category → String
  | .malformedField => "MalformedFieldError"
  | .emptyFieldName => "EmptyRecordFieldNameError"
  | .duplicateTag => "DuplicateTagError"
  | .unresolvedAlias => "UnresolvedAliasError"
  | .unsupportedShape => "UnsupportedTypeShapeError"
  | .aliasConflict => "AliasConflictError"

/-- The category of a cause. -/
def Cause.category : Cause → Category
  | .emptyFieldName => .emptyFieldName
  | .repeatedTag _ => .duplicateTag
  | .unresolved _ => .unresolvedAlias
  | .wrapperClash _ | .jsonValueRedefined | .conflictingAlias _ => .aliasConflict
  | .outboundNotUnion | .unknownKind _ | .variantShape _ | .optionalOutsideField | .mixedUnion
  | .messageNotUnion _ => .unsupportedShape
  | _ => .malformedField

/-- The words for a cause. -/
def Cause.detail : Cause → String
  | .notJson problem => "extractor message is not valid JSON: " ++ problem.message
  | .notAnObject => "extractor message must be a JSON object"
  | .moduleNameMissing => "extractor message is missing 'moduleName'"
  | .outboundNotUnion => "'outbound' must be a union"
  | .nodeNotObject => "type node must be an object or a kind name"
  | .kindMissing => "type node is missing 'kind'"
  | .unknownKind kind => "unknown type kind " ++ Text.display kind
  | .keyMissing kind key =>
    "type node of kind " ++ Text.display kind ++ " is missing " ++ Text.display key
  | .literalNotText => "literal value must be a string"
  | .fieldEntryShape => "record fields must be objects with 'name' and 'type'"
  | .fieldsShape => "record fields must be a list or an object"
  | .fieldNameNotText name => "record field name " ++ name.display ++ " is not a string"
  | .variantsNotList => "union variants must be a list"
  | .variantShape index => "union variant #" ++ toString index ++ " must be a record or a literal"
  | .aliasNameEmpty => "alias name must be a non-empty string"
  | .notTypeName name => "alias name " ++ Text.display name ++ " is not a valid type name"
  | .wrapperClash name =>
    "alias " ++ Text.display name ++ " clashes with a name used by the declaration wrapper"
  | .jsonValueRedefined =>
    "alias " ++ Text.display jsonValueName ++ " is reserved for the recursive JSON value type"
  | .conflictingAlias name =>
    "alias " ++ Text.display name ++ " is defined more than once with different definitions"
  | .unresolved name =>
    "reference to " ++ Text.display name ++ " has no enclosing alias of that name"
  | .optionalOutsideField => "optional types are only supported as record fields"
  | .emptyFieldName => "record field has an empty name"
  | .repeatedField name => "record field " ++ Text.display name ++ " appears more than once"
  | .mixedUnion => "union variants must be all tagged records or all string literals"
  | .tagMissing index => "union variant #" ++ toString index ++ " has no literal 'tag' field"
  | .repeatedTag tag => "duplicate tag " ++ Text.display tag ++ " in union"
  | .invalidModuleName name =>
    "module name " ++ Text.display name ++ " is not a valid Elm module name"
  | .messageNotUnion formName => "outbound message type must be a union, got " ++ formName

/-- The tag that a duplicate tag repeats. -/
def Cause.tag? : Cause → Option String
  | .repeatedTag tag => some tag
  | _ => none

/-- The alias or reference that a conflict or an unresolved reference is about. -/
def Cause.aliasName? : Cause → Option String
  | .wrapperClash name | .conflictingAlias name | .unresolved name => some name
  | .jsonValueRedefined => some jsonValueName
  | _ => none

/-- A cause at the end of a route. -/
structure TypeFault where
  cause : Cause
  route : Route

namespace TypeFault

/-- The words for the cause. -/
def detail (f : TypeFault) : String := f.cause.detail

/-- The route in one line; the empty route is the root. -/
def location (f : TypeFault) : String :=
  if f.route.isEmpty then "<root>" else " > ".intercalate f.route

/-- Where and why. -/
def message (f : TypeFault) : String := f.location ++ ": " ++ f.detail

end TypeFault

end BoundaryTypes
