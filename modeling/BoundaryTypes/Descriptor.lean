/-
  `Descriptor` — the one message that describes a module.

  A message is a JSON object with the name of the module, the union of the messages
  that the module sends, and the type of its start-up flags. A caller may supply a
  name for a message that has none. A message without outbound messages describes
  the empty union, one without flags no flags type.
-/
import BoundaryTypes.Json.Writer
import BoundaryTypes.Text.Split
import BoundaryTypes.TypeExpr.Decode
import BoundaryTypes.TypeExpr.Encode

namespace BoundaryTypes

/-- What is known of a module. -/
structure Descriptor where
  moduleName : String
  /-- The union of the messages that the module sends. -/
  outbound : TypeExpr
  /-- The type of the flags the module is started with, if it takes any. -/
  flags : Option TypeExpr
deriving DecidableEq, Repr

namespace Descriptor

/-- The segments of the module name. -/
def modulePath (d : Descriptor) : List String := Text.splitOn '.' d.moduleName

/-- The types of a module: its messages, and its flags if it takes any. -/
def types (d : Descriptor) : List TypeExpr := d.outbound :: d.flags.toList

/-- The module name of a message: its own, or `fallback` when it names none. -/
def moduleNameOf (fallback : Option String) (members : List (String × Json)) :
    Except TypeFault String :=
  let named := match Json.member? members "moduleName" with
    | some (.string name) => some name
    | some _ => none
    | none => fallback
  match named with
  | some name => if name = "" then .error ⟨.moduleNameMissing, []⟩ else .ok name
  | none => .error ⟨.moduleNameMissing, []⟩

/-- The union of outbound messages that a message describes. -/
def outboundOf (moduleName : String) (members : List (String × Json)) :
    Except TypeFault TypeExpr := do
  let route := [moduleName, "outbound"]
  match Json.member? members "outbound" with
  | none | some .null => pure (.union [])
  | some node =>
    let e ← TypeExpr.ofJson route node
    if e.isUnion then pure e else .error ⟨.outboundNotUnion, route⟩

/-- The flags type that a message describes. -/
def flagsOf (moduleName : String) (members : List (String × Json)) :
    Except TypeFault (Option TypeExpr) :=
  match Json.member? members "flags" with
  | none | some .null => .ok none
  | some node => (TypeExpr.ofJson [moduleName, "flags"] node).map some

/-- The descriptor that a JSON value holds. -/
def ofJson (fallback : Option String) : Json → Except TypeFault Descriptor
  | .object members => do
    let moduleName ← moduleNameOf fallback members
    let outbound ← outboundOf moduleName members
    let flags ← flagsOf moduleName members
    pure ⟨moduleName, outbound, flags⟩
  | _ => .error ⟨.notAnObject, []⟩

/-- The descriptor that a text holds. -/
def read (fallback : Option String) (text : String) : Except TypeFault Descriptor :=
  match Json.read text with
  | .error problem => .error ⟨.notJson problem, []⟩
  | .ok v => ofJson fallback v

/-- The message as a JSON value. -/
def toJson (d : Descriptor) : Json :=
  .object [("moduleName", .string d.moduleName), ("outbound", d.outbound.toJson),
    ("flags", (d.flags.map TypeExpr.toJson).getD .null)]

/-- The message as text; `indent` is the width of one level, or `none` for one line. -/
def write (indent : Option Nat) (d : Descriptor) : String := d.toJson.write indent

end Descriptor

end BoundaryTypes
