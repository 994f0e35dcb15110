/-
  `Delivery` — what is asked of a framework.

  A framework is faithful if it delivers an order that arrives as JSON, with the same values and
  texts, and sends the status and the body that the application answers with (`Faithful`). Nothing
  is asked of it for other requests. Strings with half of a surrogate pair are left out: a
  body with one cannot be sent. The framework at hand is faithful (`router_faithful`).
-/
import BoundaryTypes.Proofs.Json.Document
import BoundaryTypes.Service

namespace BoundaryTypes.Service

/-- A text, or nothing. -/
def textOrNull (text : Option String) : Json := (text.map Json.string).getD .null

/-- The body of a request: a message, and four names of which each may be null. -/
def orderBody (o : Order) : Json :=
  .object [("descriptor", .object o.message),
    ("names", .object [(NamedPart.message.word, textOrNull o.names.message),
      (NamedPart.flags.word, textOrNull o.names.flags),
      (NamedPart.app.word, textOrNull o.names.app),
      (NamedPart.root.word, textOrNull o.names.root)])]

/-- A text is the body of a request with an order, and no string in it holds half of a surrogate
pair. -/
structure Orders (body : String) (o : Order) : Prop where
  whole : Json.isWhole body = true
  json : Json.readWhole (withoutMark body) = .ok (orderBody o)

/-- A request with an order. -/
def posted (body : String) : Arrival := ⟨"POST", "/declarations", body⟩

/-- What is documented of frameworks: JSON is delivered as it is, and so are answers. -/
structure Framework.Faithful (w : Framework) : Prop where
  delivers : ∀ {body : String} {o : Order}, Orders body o →
    w.deliver (posted body) = .ok (.declarations o)
  sends : ∀ answer : Answer, w.send answer = ⟨answer.status, answer.body⟩

variable {body : String} {o : Order}

/-- An order gets the status and the body that the application answers it with. -/
theorem Framework.Faithful.respond {w : Framework} (h : w.Faithful) (hbody : Orders body o) :
    w.respond (posted body) = ⟨o.answer.status, o.answer.body⟩ := by
  rw [Framework.respond, h.delivers hbody]
  exact h.sends _

/-! ### The framework at hand -/

theorem ofJson?_orderBody (o : Order) : Order.ofJson? (orderBody o) = some o := by
  obtain ⟨message, names⟩ := o
  obtain ⟨m, f, a, r⟩ := names
  cases m <;> cases f <;> cases a <;> cases r <;> rfl

/-- A request with an order is a call for it. -/
theorem callOf_posted (hbody : Orders body o) : callOf (posted body) = .ok (.declarations o) := by
  have htarget : Target.ofText? "/declarations" = some .declarations := by decide
  have hverb : "POST".map Char.toUpper = Target.declarations.verb := by
    rw [← String.toList_inj, String.toList_map]
    decide
  have hread : Order.read? body = some o := by
    rw [Order.read?, hbody.json]
    exact ofJson?_orderBody o
  rw [callOf, posted, htarget]
  dsimp only
  rw [if_neg (not_not_intro hverb), hread]

/-- The stand-in for a framework does what is asked of one. -/
theorem router_faithful : router.Faithful where
  delivers hbody := congrArg (Except.mapError _) (callOf_posted hbody)
  sends _ := rfl

/-! ### Written orders -/

/-- A written document has no byte order mark in front. -/
theorem withoutMark_write (indent : Option Nat) {v : Json} (hv : v.Textual) :
    withoutMark (v.write indent) = (v.write indent).toList := by
  obtain ⟨c, hc, t, hhead⟩ := Json.writeAt_head indent 0 hv
  -- A written value begins with one of a few characters, and the mark is none of them.
  obtain ⟨-, -, hmark⟩ := Json.valueOpenings_spec c hc
  have hhead : (v.write indent).toList = c :: t := hhead
  unfold withoutMark
  rw [hhead]
  split
  · next heq => exact absurd (List.cons.inj heq).1 hmark
  · rfl

theorem orders_write (hwhole : Json.isWhole ((orderBody o).write none) = true)
    (ho : (orderBody o).Textual) : Orders ((orderBody o).write none) o where
  whole := hwhole
  json := by rw [withoutMark_write none ho, Json.readWhole_write none ho]

end BoundaryTypes.Service
