/-
  `Application` — declaration files made on request.

  The application knows two calls: one asks whether it is there, the other orders the
  declaration file for a message, perhaps with names. The names are judged before the
  message. Nothing is kept from one call to the next. What arrives over the web becomes a
  call, and an answer leaves, by way of a framework that others wrote; it is a parameter here.
-/
import BoundaryTypes.DeclarationFile

namespace BoundaryTypes.Service

/-- What a declaration file is ordered with: the members of a message, and perhaps names. -/
structure Order where
  message : List (String × Json)
  names : NameOverrides

/-- What the application is called for. -/
inductive Call where
  | health
  | declarations (o : Order)

/-- What the application answers. -/
inductive Answer where
  | alive
  | declaration (moduleName text : String)
  | refused (f : TypeFault)
  | unusableNames (f : NamesFault)

namespace Answer

/-- The status of an answer. -/
def status : Answer → Nat
  | .alive | .declaration _ _ => 200
  | .unusableNames _ => 400
  | .refused _ => 422

/-- The body of an answer. -/
def body : Answer → Json
  | .alive => .object [("status", .string "ok")]
  | .declaration moduleName text =>
    .object [("module", .string moduleName), ("declaration", .string text)]
  | .refused f =>
    .object [("detail", .string f.detail), ("path", .array (f.route.map .string)),
      ("error", .string f.cause.category.name)]
  | .unusableNames f => .object [("detail", .string f.message)]

end Answer

/-- The answer to an order. -/
def Order.answer (o : Order) : Answer :=
  -- Unusable names are reported even when the message is refused too.
  match o.names.resolve with
  | .error f => .unusableNames f
  | .ok names =>
    match Descriptor.ofJson none (.object o.message) with
    | .error f => .refused f
    | .ok d =>
      match generateDeclaration names d with
      | .error f => .refused f
      | .ok text => .declaration d.moduleName text

/-- The answer to a call. -/
def Call.answer : Call → Answer
  | .health => .alive
  | .declarations o => o.answer

/-! ### The framework -/

/-- A request as it arrives. -/
structure Arrival where
  /-- What is asked of the target, such as `GET`. -/
  verb : String
  target : String
  body : String

/-- A text without a byte order mark in front. -/
def withoutMark (s : String) : List Char :=
  match s.toList with
  | '\ufeff' :: rest => rest
  | rest => rest

/-- A response as it leaves. -/
structure Response where
  status : Nat
  body : Json

/-- A framework around the application. -/
structure Framework where
  /-- The call that a request stands for; a request that stands for none gets a response of the
  framework's own. -/
  deliver : Arrival → Except Response Call
  send : Answer → Response

/-- The response to a request. -/
def Framework.respond (w : Framework) (a : Arrival) : Response :=
  match w.deliver a with
  | .error response => response
  | .ok call => w.send call.answer

end BoundaryTypes.Service
