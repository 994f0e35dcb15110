/-
  `Service` — a framework for the application, as far as it is needed to serve it.

  It knows two targets, `/health` and `/declarations`, and takes bodies that are JSON. It
  stands in for a real framework: of a request that is none for the application
  it says no more than a status.
-/
import BoundaryTypes.Service.Application

namespace BoundaryTypes.Service

/-- What a request is replied with. -/
inductive Reply where
  | answered (answer : Answer)
  /-- The body is not an object of the shape that is asked for. -/
  | invalid
  | unknownTarget
  | otherVerb

namespace Reply

/-- The status of a reply. -/
def status : Reply → Nat
  | .answered answer => answer.status
  | .invalid => 422
  | .unknownTarget => 404
  | .otherVerb => 405

/-- A body that says what is wrong. -/
def detail (text : String) : Json := .object [("detail", .string text)]

/-- The body of a reply. -/
def body : Reply → Json
  | .answered answer => answer.body
  | .invalid => detail "Unprocessable Entity"
  | .unknownTarget => detail "Not Found"
  | .otherVerb => detail "Method Not Allowed"

end Reply

/-! ### Orders -/

/-- A name in an order: a text, or nothing. -/
def nameIn? (members : List (String × Json)) (key : String) : Option (Option String) :=
  match Json.member? members key with
  | none | some .null => some none
  | some (.string s) => some (some s)
  | some _ => none

/-- The names in an order. -/
def namesIn? : Option Json → Option NameOverrides
  | none | some .null => some {}
  | some (.object members) => do
    let message ← nameIn? members NamedPart.message.word
    let flags ← nameIn? members NamedPart.flags.word
    let app ← nameIn? members NamedPart.app.word
    let root ← nameIn? members NamedPart.root.word
    pure ⟨message, flags, app, root⟩
  | some _ => none

/-- The order that a JSON value holds. -/
def Order.ofJson? : Json → Option Order
  | .object members =>
    match Json.member? members "descriptor" with
    | some (.object message) => (namesIn? (Json.member? members "names")).map (Order.mk message)
    | _ => none
  | _ => none

/-- The order that the body of a request holds. -/
def Order.read? (body : String) : Option Order :=
  match Json.readWhole (withoutMark body) with
  | .ok v => ofJson? v
  | .error _ => none

/-! ### Targets -/

/-- The targets of the service. -/
inductive Target where
  | health
  | declarations
deriving DecidableEq, Repr

namespace Target

/-- The path of a target. -/
def path : Target → String
  | .health => "/health"
  | .declarations => "/declarations"

/-- What may be asked of a target. -/
def verb : Target → String
  | .health => "GET"
  | .declarations => "POST"

/-- The target that a text names. A query behind it and slashes at its end do not count. -/
def ofText? (s : String) : Option Target :=
  let path := s.toList.takeWhile fun c => c != '?' && c != '#'
  let bare := (path.reverse.dropWhile (· == '/')).reverse
  [health, declarations].find? fun t => t.path.toList = bare

end Target

/-- The call that a request stands for. Small and capital letters do not differ in what is asked. -/
def callOf (a : Arrival) : Except Reply Call :=
  match Target.ofText? a.target with
  | none => .error .unknownTarget
  | some t =>
    if a.verb.map Char.toUpper ≠ t.verb then .error .otherVerb
    else
      match t with
      | .health => .ok .health
      | .declarations =>
        match Order.read? a.body with
        | none => .error .invalid
        | some o => .ok (.declarations o)

/-- The reply to a request. -/
def reply (a : Arrival) : Reply :=
  match callOf a with
  | .error r => r
  | .ok call => .answered call.answer

/-- The framework that replies so. -/
def router : Framework where
  deliver a := (callOf a).mapError fun r => ⟨r.status, r.body⟩
  send answer := ⟨answer.status, answer.body⟩

end BoundaryTypes.Service
