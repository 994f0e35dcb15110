/-
  `Rendering` — the text of a type in a declaration.

  The text of a type depends on the type alone. `inline` writes it in one line, as
  a part of another type; an alias is written by its name. `declarationText` binds a
  name to a type: a record gets a line for each field and a union a line for each
  variant, every other type stays inline. A record key that is no identifier is
  quoted, and a list of a union of several variants is parenthesised.
-/
import BoundaryTypes.Json.Quoted
import BoundaryTypes.TypeExpr.Basic

namespace BoundaryTypes.TypeExpr

/-- A record key: bare when it is an identifier, otherwise a literal. -/
def keyText (name : String) : String := if isIdentifier name then name else Json.quote name

/-- What marks a key that may be missing. -/
def optionalMark : TypeExpr → String
  | .optional _ => "?"
  | _ => ""

mutual

/-- The text of a type inside another type. -/
def inline : TypeExpr → String
  | .primitive k => k.word
  | .literal s => Json.quote s
  | .listOf e => if e.isWideUnion then "(" ++ e.inline ++ ")[]" else e.inline ++ "[]"
  | .dictOf e => "\x7b [key: string]: " ++ e.inline ++ " \x7d"
  | .optional e => e.inline
  | .record [] => "\x7b\x7d"
  | .record (f :: fields) => "\x7b " ++ "; ".intercalate (fieldTexts (f :: fields)) ++ " \x7d"
  | .union [] => "never"
  | .union (v :: variants) => " | ".intercalate (variantTexts (v :: variants))
  | .alias name _ => name
  | .reference name => name

/-- The texts of fields: key, mark and type. -/
def fieldTexts : List (String × TypeExpr) → List String
  | [] => []
  | (name, e) :: rest => (keyText name ++ optionalMark e ++ ": " ++ e.inline) :: fieldTexts rest

/-- The texts of variants. -/
def variantTexts : List TypeExpr → List String
  | [] => []
  | e :: rest => e.inline :: variantTexts rest

end

/-- A line of a declaration for each variant. -/
def variantLines (variants : List TypeExpr) : String :=
  String.join ((variantTexts variants).map fun text => "\n  | " ++ text)

/-- A line of a declaration for each field. -/
def fieldLines (fields : List (String × TypeExpr)) : String :=
  String.join ((fieldTexts fields).map fun text => "  " ++ text ++ ";\n")

/-- What a declaration says after the bound name, up to the closing semicolon. -/
def definitionText : TypeExpr → String
  | .union (v :: variants) => " =" ++ variantLines (v :: variants)
  | .record (f :: fields) => " = \x7b\n" ++ fieldLines (f :: fields) ++ "\x7d"
  | e => " = " ++ e.inline

/-- The declaration that binds a name to a type. -/
def declarationText (name : String) (definition : TypeExpr) : String :=
  "type " ++ name ++ definition.definitionText ++ ";"

/-- The declaration of the type of arbitrary JSON. -/
def jsonValueDeclaration : String :=
  "type " ++ jsonValueName ++ " = string | number | boolean | null | " ++ jsonValueName
    ++ "[] | \x7b [key: string]: " ++ jsonValueName ++ " \x7d;"

end BoundaryTypes.TypeExpr
