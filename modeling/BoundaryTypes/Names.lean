/-
  `Names` — the four names that a declaration file uses for its fixed parts.

  They name the union of messages, the flags type, the interface of a running app
  and the constant that holds the modules. Each must be a type name other than
  `JsonValue`, and no two may be equal. `DeclarationNames` carries that fact.
-/
import BoundaryTypes.Identifier
import BoundaryTypes.Text.Display

namespace BoundaryTypes

/-- The four parts that have a name. -/
inductive NamedPart where
  | message
  | flags
  | app
  | root
deriving DecidableEq, Repr

/-- The word for a named part in a configuration. -/
def NamedPart.word : NamedPart → String
  | .message => "message"
  | .flags => "flags"
  | .app => "app"
  | .root => "root"

/-- Why four names cannot be used. -/
inductive NamesFault where
  | notTypeName (part : NamedPart) (name : String)
  | jsonValueReused (part : NamedPart)
  | notDistinct
deriving DecidableEq, Repr

/-- The words for a fault of names. -/
def NamesFault.message : NamesFault → String
  | .notTypeName part name =>
    "names." ++ part.word ++ " must be a TypeScript type name, got " ++ Text.display name
  | .jsonValueReused part =>
    "names." ++ part.word ++ " may not reuse the reserved name " ++ Text.display jsonValueName
  | .notDistinct => "names.message, names.flags, names.app and names.root must all differ"

/-- Four names, as they were chosen. -/
structure ChosenNames where
  message : String := "FromElm"
  flags : String := "Flags"
  app : String := "ElmApp"
  root : String := "Elm"
deriving DecidableEq, Repr

namespace ChosenNames

/-- The names with the parts they name, in the order in which they are checked. -/
def parts (n : ChosenNames) : List (NamedPart × String) :=
  [(.message, n.message), (.flags, n.flags), (.app, n.app), (.root, n.root)]

/-- The fault of one name. -/
def partFault? (p : NamedPart × String) : Option NamesFault :=
  if !isTypeName p.2 then some (.notTypeName p.1 p.2)
  else if p.2 = jsonValueName then some (.jsonValueReused p.1)
  else none

/-- The first fault of four names. -/
def fault? (n : ChosenNames) : Option NamesFault :=
  -- The names are compared only when each of them is usable alone.
  match n.parts.findSome? partFault? with
  | some f => some f
  | none => if (n.parts.map (·.2)).Nodup then none else some .notDistinct

end ChosenNames

/-- Four names that a declaration file can use. -/
structure DeclarationNames extends ChosenNames where
  /-- Every name is a type name other than `JsonValue`, and they differ. -/
  sound : toChosenNames.fault? = none

namespace DeclarationNames

/-- The names when they can be used, their first fault otherwise. -/
def ofChosen (n : ChosenNames) : Except NamesFault DeclarationNames :=
  match h : n.fault? with
  | none => .ok ⟨n, h⟩
  | some f => .error f

/-- The names of a file for which none were chosen. -/
def standard : DeclarationNames := ⟨{}, by decide +kernel⟩

end DeclarationNames

/-- Names given for some of the four parts. -/
structure NameOverrides where
  message : Option String := none
  flags : Option String := none
  app : Option String := none
  root : Option String := none
deriving DecidableEq, Repr

namespace NameOverrides

/-- A given name, unless it is missing or empty. -/
def pick (given : Option String) (standard : String) : String :=
  match given with
  | none => standard
  | some name => if name = "" then standard else name

/-- The given names, the standard ones for the rest. -/
def chosen (o : NameOverrides) : ChosenNames :=
  let s : ChosenNames := {}
  ⟨pick o.message s.message, pick o.flags s.flags, pick o.app s.app, pick o.root s.root⟩

/-- The names of a file with the given names. -/
def resolve (o : NameOverrides) : Except NamesFault DeclarationNames :=
  DeclarationNames.ofChosen o.chosen

end NameOverrides

end BoundaryTypes
