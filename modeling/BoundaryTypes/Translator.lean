/-
  `Translator` — a session at work, which writes types while it checks them.

  A translator goes through a type once. It keeps the aliases whose definitions it is
  writing on a stack, so that a reference can be resolved, and it takes each of them off
  again, whether its definition could be written or not. What it writes inside a type, it
  puts together from the texts of the parts. It serves any number of calls; a call that
  fails leaves the translator as it is at that moment, and the next call goes on from
  there.
-/
import BoundaryTypes.Session

namespace BoundaryTypes

/-- What a translator remembers. -/
structure Translator where
  session : Session
  /-- The aliases whose definitions are being written, the innermost first. -/
  scopes : List String
deriving DecidableEq, Repr

/-- A step of a translator, which may end in a fault and changes the translator in any case. -/
abbrev TranslatorM := EStateM TypeFault Translator

namespace Translator

/-- A translator that has served no call. -/
def new (reserved : List String) : Translator := ⟨Session.empty reserved, []⟩

/-- The declarations of the aliases met inside other types; an open place has the empty text. -/
def hoistedTexts (t : Translator) : List String := t.session.hoistedTexts

/-- A step of the session. -/
def onSession {α : Type} (step : SessionM α) : TranslatorM α := fun t =>
  match step t.session with
  | .ok a s => .ok a { t with session := s }
  | .error fault s => .error fault { t with session := s }

/-- A step inside the definition of an alias, which is taken off the stack in any case. -/
def within {α : Type} (name : String) (step : TranslatorM α) : TranslatorM α := do
  modify fun t => { t with scopes := name :: t.scopes }
  try step
  finally modify fun t => { t with scopes := t.scopes.tail }

/-- The texts of different literals, none of them in `seen`. -/
def writeLiterals (route : Route) (seen : List String) : List String → TranslatorM (List String)
  | [] => pure []
  | value :: rest => do
    if value ∈ seen then onSession (Session.refuse route (.repeatedTag value))
    else
      let others ← writeLiterals route (value :: seen) rest
      pure (Json.quote value :: others)

/-! ### Texts from the texts of parts -/

/-- How a type is laid out: inside another type, or as what a declaration says after the bound
name. -/
inductive Layout where
  | inside
  | declared
deriving DecidableEq, Repr

namespace Layout

/-- A text in one line. -/
def plain (layout : Layout) (text : String) : String :=
  match layout with
  | .inside => text
  | .declared => " = " ++ text

/-- A record with these texts of fields; a declaration has a line for each. -/
def record (layout : Layout) (texts : List String) : String :=
  if texts.isEmpty then layout.plain "\x7b\x7d"
  else
    match layout with
    | .inside => "\x7b " ++ "; ".intercalate texts ++ " \x7d"
    | .declared =>
      " = \x7b\n" ++ String.join (texts.map fun text => "  " ++ text ++ ";\n") ++ "\x7d"

/-- A union with these texts of variants; a declaration has a line for each. -/
def union (layout : Layout) (texts : List String) : String :=
  if texts.isEmpty then layout.plain "never"
  else
    match layout with
    | .inside => " | ".intercalate texts
    | .declared => " =" ++ String.join (texts.map fun text => "\n  | " ++ text)

end Layout

/-- A list of elements with this text. -/
def listText (element : TypeExpr) (text : String) : String :=
  if element.isWideUnion then "(" ++ text ++ ")[]" else text ++ "[]"

/-! ### Writing types -/

mutual

/-- Writes a type. -/
def write (layout : Layout) (route : Route) : TypeExpr → TranslatorM String
  | .primitive kind => pure (layout.plain kind.word)
  | .literal value => pure (layout.plain (Json.quote value))
  | .listOf e => do
    let text ← write .inside (route ++ [listStep]) e
    pure (layout.plain (listText e text))
  | .dictOf e => do
    let text ← write .inside (route ++ [dictStep]) e
    pure (layout.plain ("\x7b [key: string]: " ++ text ++ " \x7d"))
  | .optional _ => onSession (Session.refuse route .optionalOutsideField)
  | .record fields => do
    let texts ← writeFields route [] fields
    pure (layout.record texts)
  | .union variants => do
    let texts ← (match Session.literals? variants with
      | some values => writeLiterals route [] values
      | none =>
        if variants.all fun v => v.fields?.isSome then writeVariants route [] 0 variants
        else onSession (Session.refuse route .mixedUnion))
    pure (layout.union texts)
  | .reference name => do
    if name ∈ (← get).scopes then pure (layout.plain name)
    else onSession (Session.refuse route (.unresolved name))
  | .alias name definition => do
    let scopes := (← get).scopes
    let new ← onSession (Session.register route name definition)
    if new && name ∉ scopes then
      -- The place is opened first, so that it comes before those of aliases further inside.
      onSession (modify (·.openPlace name))
      let text ← within name (write .declared (route ++ [name]) definition)
      onSession (modify (·.fillPlace name ("type " ++ name ++ text ++ ";")))
    pure (layout.plain name)

/-- Writes the fields of a record; their names are not empty and repeat none of `seen`. -/
def writeFields (route : Route) (seen : List String) :
    List (String × TypeExpr) → TranslatorM (List String)
  | [] => pure []
  | (name, e) :: rest => do
    if name = "" then onSession (Session.refuse route .emptyFieldName)
    else if name ∈ seen then onSession (Session.refuse route (.repeatedField name))
    else
      let text ← (match e with
        | .optional inner => write .inside (route ++ [name]) inner
        | e => write .inside (route ++ [name]) e)
      let others ← writeFields route (name :: seen) rest
      pure ((TypeExpr.keyText name ++ TypeExpr.optionalMark e ++ ": " ++ text) :: others)

/-- Writes the tagged variants of a union from the one with the index on; their tags repeat none of
`seen`. -/
def writeVariants (route : Route) (seen : List String) (index : Nat) :
    List TypeExpr → TranslatorM (List String)
  | [] => pure []
  | v :: rest => do
    match Session.tag? v with
    | none => onSession (Session.refuse route (.tagMissing index))
    | some tag =>
      if tag ∈ seen then onSession (Session.refuse route (.repeatedTag tag))
      else
        let text ← write .inside (route ++ [tag]) v
        let others ← writeVariants route (tag :: seen) (index + 1) rest
        pure (text :: others)

end

/-! ### Calls -/

/-- Writes a type inside another one. -/
def translate (e : TypeExpr) (route : Route) : TranslatorM String := write .inside route e

/-- Writes the declaration of an alias at the top level. -/
def declare (name : String) (definition : TypeExpr) (route : Route) : TranslatorM String := do
  let _ ← onSession (Session.register route name definition)
  -- The alias is bound here, so its place among the others is given up.
  onSession (modify (·.closePlace name))
  if name = jsonValueName then pure TypeExpr.jsonValueDeclaration
  else
    let text ← within name (write .declared (route ++ [name]) definition)
    pure ("type " ++ name ++ text ++ ";")

/-- A call of a translator. -/
inductive Call where
  | translate (e : TypeExpr) (route : Route)
  | declare (name : String) (definition : TypeExpr) (route : Route)

/-- The text that a call asks for. -/
def perform : Call → TranslatorM String
  | .translate e route => translate e route
  | .declare name definition route => declare name definition route

/-- The translator after some calls, one after another, each of which may fail. -/
def after (t : Translator) (calls : List Call) : Translator :=
  calls.foldl (fun t call => stateOf (perform call t)) t

end Translator

end BoundaryTypes
