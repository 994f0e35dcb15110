/-
  `Identifier` — which names a declaration may use.

  An identifier is made of ASCII letters, digits, `_` and `$` and does not begin
  with a digit; one line feed may end it. A type name is an identifier that is
  neither a predefined type nor a reserved word. The name `JsonValue` is set aside
  for the type of arbitrary JSON.
-/

namespace BoundaryTypes

/-- A character that may begin an identifier. -/
def isIdentifierStart (c : Char) : Bool := c.isAlpha || c == '_' || c == '$'

/-- A character that may stand inside an identifier. -/
def isIdentifierPart (c : Char) : Bool := isIdentifierStart c || c.isDigit

/-- The characters of an identifier after the first. -/
def isIdentifierTail : List Char → Bool
  | [] => true
  | c :: rest => (c == '\n' && rest.isEmpty) || (isIdentifierPart c && isIdentifierTail rest)

/-- Whether a name is an identifier. -/
def isIdentifier (name : String) : Bool :=
  match name.toList with
  | [] => false
  | c :: rest => isIdentifierStart c && isIdentifierTail rest

/-- Predefined types and reserved words, which cannot name a type. -/
def reservedTypeNames : List String :=
  ["any", "bigint", "boolean", "never", "null", "number", "object", "string", "symbol",
   "undefined", "unknown", "void",
   "break", "case", "catch", "class", "const", "continue", "debugger", "default", "delete", "do",
   "else", "enum", "export", "extends", "false", "finally", "for", "function", "if", "import",
   "in", "instanceof", "new", "return", "super", "switch", "this", "throw", "true", "try",
   "typeof", "var", "while", "with"]

/-- Whether a name can be bound as a type. -/
def isTypeName (name : String) : Bool := isIdentifier name && !reservedTypeNames.contains name

/-- The name of the type of arbitrary JSON values. -/
def jsonValueName : String := "JsonValue"

theorem isTypeName_jsonValueName : isTypeName jsonValueName = true := by decide +kernel

end BoundaryTypes
