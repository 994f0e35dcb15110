/-
  `Session` — the aliases of one declaration file.

  A declaration file binds every alias once. A session remembers which names have
  which definition, and keeps a place for each alias that was met inside another
  type, in the order of discovery; the place is filled when the alias's own
  definition has been checked. A check goes through a type in the order in which it is
  written and changes nothing but the session; the text is `TypeExpr.inline` or
  `TypeExpr.declarationText`. A fault ends a check, and what the session had
  learned by then stays.
-/
import BoundaryTypes.TypeExpr.Rendering
import BoundaryTypes.TypeFault

namespace BoundaryTypes

/-- The aliases that a declaration file knows. -/
structure Session where
  /-- Names that the file binds to something else than a type of a message. -/
  reserved : List String
  /-- Registered aliases with their definitions, the latest first. -/
  definitions : List (String × TypeExpr)
  /-- Aliases met inside other types in the order of discovery, with their declarations; a place
  without one is still open. -/
  hoisted : List (String × Option String)
deriving DecidableEq, Repr

/-- A step of a session, which may end in a fault and changes the session in any case. -/
abbrev SessionM := EStateM TypeFault Session

/-- The state that steps leave, whether they end well or not. -/
def stateOf {ε σ α : Type} : EStateM.Result ε σ α → σ
  | .ok _ s => s
  | .error _ s => s

namespace Session

/-- A session that has met no alias. -/
def empty (reserved : List String) : Session := ⟨reserved, [], []⟩

/-- The definition of a registered alias. -/
def definition? (s : Session) (name : String) : Option TypeExpr :=
  (s.definitions.find? fun d => d.1 = name).map (·.2)

/-- The declarations of the aliases met inside other types; an open place has the empty text. -/
def hoistedTexts (s : Session) : List String := s.hoisted.map fun h => h.2.getD ""

/-- Opens a place for an alias at the end. -/
def openPlace (s : Session) (name : String) : Session :=
  { s with hoisted := s.hoisted ++ [(name, none)] }

/-- Fills the place of an alias. -/
def fillPlace (s : Session) (name text : String) : Session :=
  { s with hoisted := s.hoisted.map fun h => if h.1 = name then (name, some text) else h }

/-- Gives up the place of an alias, which gets its declaration elsewhere. -/
def closePlace (s : Session) (name : String) : Session :=
  { s with hoisted := s.hoisted.filter fun h => h.1 ≠ name }

/-- A fault at the end of a route. -/
def refuse {α : Type} (route : Route) (cause : Cause) : SessionM α := throw ⟨cause, route⟩

/-- Registers an alias; `true` when its name is new. The name must be a type name that the file
does not bind otherwise, and must not have another definition. -/
def register (route : Route) (name : String) (definition : TypeExpr) : SessionM Bool := do
  let s ← get
  if !isTypeName name then refuse route (.notTypeName name)
  else if name ∈ s.reserved then refuse (route ++ [name]) (.wrapperClash name)
  else if name = jsonValueName then
    if TypeExpr.alias name definition = TypeExpr.jsonValue then pure false
    else refuse (route ++ [name]) .jsonValueRedefined
  else
    match s.definition? name with
    | none =>
      set { s with definitions := (name, definition) :: s.definitions }
      pure true
    | some known =>
      if known = definition then pure false else refuse (route ++ [name]) (.conflictingAlias name)

/-- The texts of the variants when all of them are literals. -/
def literals? (variants : List TypeExpr) : Option (List String) := variants.mapM (·.literal?)

/-- Checks that no text of an enumeration repeats one of `seen`. -/
def checkLiterals (route : Route) (seen : List String) : List String → SessionM Unit
  | [] => pure ()
  | value :: rest =>
    if value ∈ seen then refuse route (.repeatedTag value)
    else checkLiterals route (value :: seen) rest

/-- The tag of a variant: the text of its first field of that name. -/
def tag? : TypeExpr → Option String
  | .record fields => (TypeExpr.field? fields tagField).bind (·.literal?)
  | _ => none

mutual

/-- Checks a type at the end of a route, inside the definitions of the aliases in `scopes`. -/
def check (scopes : List String) (route : Route) : TypeExpr → SessionM Unit
  | .primitive _ => pure ()
  | .literal _ => pure ()
  | .listOf e => check scopes (route ++ [listStep]) e
  | .dictOf e => check scopes (route ++ [dictStep]) e
  | .optional _ => refuse route .optionalOutsideField
  | .record fields => checkFields scopes route [] fields
  | .union variants =>
    match literals? variants with
    | some values => checkLiterals route [] values
    | none =>
      if variants.all fun v => v.fields?.isSome then checkVariants scopes route [] 0 variants
      else refuse route .mixedUnion
  | .reference name => if name ∈ scopes then pure () else refuse route (.unresolved name)
  | .alias name definition => do
    let new ← register route name definition
    if new && name ∉ scopes then
      -- The place is opened first, so that it comes before those of aliases further inside.
      modify (·.openPlace name)
      check (name :: scopes) (route ++ [name]) definition
      modify (·.fillPlace name (definition.declarationText name))

/-- Checks the fields of a record; their names are not empty and repeat none of `seen`. -/
def checkFields (scopes : List String) (route : Route) (seen : List String) :
    List (String × TypeExpr) → SessionM Unit
  | [] => pure ()
  | (name, e) :: rest => do
    if name = "" then refuse route .emptyFieldName
    else if name ∈ seen then refuse route (.repeatedField name)
    else
      match e with
      | .optional inner => check scopes (route ++ [name]) inner
      | e => check scopes (route ++ [name]) e
      checkFields scopes route (name :: seen) rest

/-- Checks the tagged variants of a union from the one with the index on; their tags repeat none of
`seen`. -/
def checkVariants (scopes : List String) (route : Route) (seen : List String) (index : Nat) :
    List TypeExpr → SessionM Unit
  | [] => pure ()
  | v :: rest => do
    match tag? v with
    | none => refuse route (.tagMissing index)
    | some tag =>
      if tag ∈ seen then refuse route (.repeatedTag tag)
      else
        check scopes (route ++ [tag]) v
        checkVariants scopes route (tag :: seen) (index + 1) rest

end

/-- The text of a type inside another one, once the type is checked. -/
def inline (e : TypeExpr) (route : Route) : SessionM String := do
  check [] route e
  pure e.inline

/-- The declaration of an alias at the top level. -/
def declare (name : String) (definition : TypeExpr) (route : Route) : SessionM String := do
  let _ ← register route name definition
  -- The alias is bound here, so its place among the others is given up.
  modify (·.closePlace name)
  if name = jsonValueName then pure TypeExpr.jsonValueDeclaration
  else
    check [name] (route ++ [name]) definition
    pure (definition.declarationText name)

end Session

end BoundaryTypes
