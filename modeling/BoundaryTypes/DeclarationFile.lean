/-
  `DeclarationFile` — the text of a module's declaration file.

  The file binds the union of messages, the flags type if there is one, every other
  alias in the order of its discovery, and at the end the type of arbitrary JSON if
  a type mentions it. Around the bindings stands a wrapper: the interface of a
  running app, and a constant that holds the module under the segments of its name.
  This is how the standard template lays a file out; a project may have a template of its
  own (`Template`).
-/
import BoundaryTypes.Descriptor
import BoundaryTypes.Names
import BoundaryTypes.Session
import BoundaryTypes.TypeExpr.Walk

namespace BoundaryTypes

/-- A binding of a declaration file. -/
structure Declaration where
  name : String
  text : String
deriving DecidableEq, Repr

/-- What a declaration file is made from. -/
structure DeclarationFile where
  names : DeclarationNames
  declarations : List Declaration
  /-- The type of the flags, as the wrapper mentions it. -/
  flagsType : String
  /-- The segments of the module name. -/
  segments : List String

namespace DeclarationFile

/-- The type of flags that carry nothing. -/
def unitType : String := "null"

/-- An outermost alias that carries the name is taken off. -/
def unwrapAlias (name : String) : TypeExpr → TypeExpr
  | .alias n definition => if n = name then definition else .alias n definition
  | e => e

/-- The declaration of the flags type. -/
def declareFlags (names : DeclarationNames) : Option TypeExpr → SessionM (List Declaration)
  | none => pure []
  | some flags => do
    let text ← Session.declare names.flags (unwrapAlias names.flags flags) []
    pure [⟨names.flags, text⟩]

/-- The declarations of the aliases that a session met inside other types. -/
def hoistedDeclarations (s : Session) : List Declaration :=
  s.hoisted.map fun h => ⟨h.1, h.2.getD ""⟩

/-- The declaration of the type of arbitrary JSON, if one of the types mentions it. -/
def jsonValueDeclarations (types : List TypeExpr) : List Declaration :=
  if types.any (·.mentions jsonValueName) then [⟨jsonValueName, TypeExpr.jsonValueDeclaration⟩]
  else []

/-- The bindings of a declaration file in their order. -/
def declare (names : DeclarationNames) (d : Descriptor) : SessionM (List Declaration) := do
  let text ← Session.declare names.message d.outbound []
  let flags ← declareFlags names d.flags
  let s ← get
  pure (⟨names.message, text⟩ :: flags ++ hoistedDeclarations s
    ++ jsonValueDeclarations d.types)

/-- The bindings of a declaration file, made in a session that has met no alias. -/
def declarationsOf (names : DeclarationNames) (d : Descriptor) :
    Except TypeFault (List Declaration) :=
  match (declare names d).run (Session.empty [names.app, names.root]) with
  | .ok declarations _ => .ok declarations
  | .error fault _ => .error fault

/-- The declaration file of a module: its name must be made of identifiers, and its messages must
be a union. -/
def assemble (names : DeclarationNames) (d : Descriptor) : Except TypeFault DeclarationFile :=
  let segments := d.modulePath
  -- The module's name is judged before any of its types.
  if !segments.all isIdentifier then .error ⟨.invalidModuleName d.moduleName, []⟩
  else if !d.outbound.isUnion then
    .error ⟨.messageNotUnion d.outbound.formName, [names.message]⟩
  else
    match declarationsOf names d with
    | .error fault => .error fault
    | .ok declarations =>
      .ok
        { names, declarations, segments
          flagsType := if d.flags.isSome then names.flags else unitType }

/-! ### The wrapper -/

/-- The indent of a nesting level. -/
def indent (level : Nat) : String := String.join (List.replicate level "  ")

/-- The interface of a running app. -/
def interfaceText (app message : String) : String :=
  "export interface " ++ app ++ " \x7b\n  ports: \x7b\n    fromElm: \x7b\n"
    ++ "      subscribe(callback: (fromElm: " ++ message ++ ") => void): void;\n    \x7d;\n"
    ++ "    toElm: \x7b\n      send(data: string): void;\n    \x7d;\n  \x7d;\n\x7d\n"

/-- The function that starts the module. -/
def initText (app flagsType : String) : String :=
  "init(options: \x7b node?: HTMLElement | null; flags: " ++ flagsType ++ " \x7d): " ++ app ++ ";\n"

/-- The lines that open the blocks of the segments, each one level deeper than the one before. -/
def openingText (segments : List String) : String :=
  String.join (segments.mapIdx fun n segment => indent (n + 1) ++ segment ++ ": \x7b\n")

/-- The lines that close the blocks of the segments, the last block first. -/
def closingText (segments : List String) : String :=
  String.join (segments.mapIdx fun n _ => indent (segments.length - n) ++ "\x7d;\n")

/-- The module under its segments. -/
def segmentsText (body : String) (segments : List String) : String :=
  openingText segments ++ indent (segments.length + 1) ++ body ++ closingText segments

/-- The constant that holds the module. -/
def constantText (root body : String) (segments : List String) : String :=
  "declare const " ++ root ++ ": \x7b\n" ++ segmentsText body segments ++ "\x7d;\nexport \x7b "
    ++ root ++ " \x7d;\n"

/-- The bindings, a blank line after each. -/
def declarationsText (declarations : List Declaration) : String :=
  String.join (declarations.map fun d => d.text ++ "\n\n")

/-- The text of a declaration file, as the standard template lays it out. -/
def render (f : DeclarationFile) : String :=
  declarationsText f.declarations ++ interfaceText f.names.app f.names.message ++ "\n"
    ++ constantText f.names.root (initText f.names.app f.flagsType) f.segments

end DeclarationFile

/-- The declaration file's text for a module, laid out by the standard template. -/
def generateDeclaration (names : DeclarationNames) (d : Descriptor) : Except TypeFault String :=
  (DeclarationFile.assemble names d).map DeclarationFile.render

end BoundaryTypes
