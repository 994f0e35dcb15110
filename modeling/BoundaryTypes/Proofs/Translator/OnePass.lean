/-
  `OnePass` — a translator writes what a session checks.

  A session checks a type first and leaves its text to `TypeExpr.inline` and
  `TypeExpr.declarationText`; a translator does both in one pass and keeps the aliases it
  is inside of on a stack. `Follows` says that a step of the translator has the outcome of a
  step of the session, on a stack that it leaves as it was, after a fault too. It is closed
  under sequences and under entering a definition, so that one induction over types gives
  it for the whole pass (`written`), and with it for the calls (`follows_perform`).
-/
import BoundaryTypes.Translator
import BoundaryTypes.Proofs.TypeExpr.Erasure

namespace BoundaryTypes.Translator

open TypeExpr

variable {α β : Type} {scopes : List String} {route : Route} {e : TypeExpr} {layout : Layout}

/-! ### Steps with the same outcome -/

/-- The outcome of a step of the session, on a translator with these aliases open. -/
def onStack (scopes : List String) :
    EStateM.Result TypeFault Session α → EStateM.Result TypeFault Translator α
  | .ok a s => .ok a ⟨s, scopes⟩
  | .error fault s => .error fault ⟨s, scopes⟩

/-- With these aliases open, a step of the translator has the outcome of a step of the session. -/
def Follows (scopes : List String) (x : TranslatorM α) (y : SessionM α) : Prop :=
  ∀ s, x ⟨s, scopes⟩ = onStack scopes (y s)

theorem follows_pure (a : α) : Follows scopes (pure a) (pure a) := fun _ => rfl

theorem follows_onSession (y : SessionM α) : Follows scopes (onSession y) y := by
  intro s
  show (match y s with
    | .ok a s => EStateM.Result.ok a (Translator.mk s scopes)
    | .error fault s => .error fault ⟨s, scopes⟩) = _
  cases y s <;> rfl

/-- Steps with the same outcome are followed by steps with the same outcome. -/
theorem Follows.seq {x : TranslatorM α} {y : SessionM α} {f : α → TranslatorM β}
    {g : α → SessionM β} (h : Follows scopes x y) (hf : ∀ a, Follows scopes (f a) (g a)) :
    Follows scopes (x >>= f) (y >>= g) := by
  intro s
  show EStateM.bind x f _ = onStack scopes (EStateM.bind y g s)
  unfold EStateM.bind
  rw [h s]
  cases y s with
  | ok a t => exact hf a t
  | error fault t => rfl

/-- What follows a step of the session. -/
theorem Follows.step {y : SessionM α} {f : α → TranslatorM β} {g : α → SessionM β}
    (h : ∀ a, Follows scopes (f a) (g a)) : Follows scopes (onSession y >>= f) (y >>= g) :=
  (follows_onSession y).seq h

/-- What is open can be asked for. -/
theorem Follows.get {f : Translator → TranslatorM α} {y : SessionM α}
    (h : ∀ s, Follows scopes (f ⟨s, scopes⟩) y) :
    Follows scopes (do let t ← get; f t) y := fun s => h s s

theorem within_run (name : String) (x : TranslatorM α) (t : Translator) :
    within name x t =
      match x { t with scopes := name :: t.scopes } with
      | .ok a u => .ok a { u with scopes := u.scopes.tail }
      | .error fault u => .error fault { u with scopes := u.scopes.tail } := by
  unfold within
  simp only [bind, EStateM.bind, tryFinally, tryFinally', Functor.map, EStateM.map,
    Outcome.modify_run]
  cases x { t with scopes := name :: t.scopes } <;> rfl

/-- An alias that is entered is off the stack again in the end. -/
theorem Follows.within {x : TranslatorM α} {y : SessionM α} {name : String}
    (h : Follows (name :: scopes) x y) : Follows scopes (within name x) y := by
  intro s
  rw [within_run, h s]
  cases y s <;> rfl

theorem follows_ite {p : Prop} [Decidable p] {x x' : TranslatorM α} {y y' : SessionM α}
    (h : Follows scopes x y) (h' : Follows scopes x' y') :
    Follows scopes (if p then x else x') (if p then y else y') := by
  split
  · exact h
  · exact h'

/-! ### Checks with the text that is written -/

/-- A check, and the text that it stands for. -/
def thenText (check : SessionM Unit) (text : α) : SessionM α := do
  check
  pure text

theorem follows_refuse (cause : Cause) (text : α) :
    Follows scopes (onSession (Session.refuse route cause))
      (thenText (Session.refuse route cause) text) := follows_onSession _

/-- What follows a text that has been written. -/
theorem Follows.bind {x : TranslatorM α} {check : SessionM Unit} {text : α}
    {f : α → TranslatorM β} {y : SessionM β} (h : Follows scopes x (thenText check text))
    (hf : Follows scopes (f text) y) : Follows scopes (x >>= f) (check >>= fun _ => y) := by
  intro s
  have hx : x ⟨s, scopes⟩ = onStack scopes (EStateM.bind check (fun _ => pure text) s) := h s
  show EStateM.bind x f _ = onStack scopes (EStateM.bind check (fun _ => y) s)
  unfold EStateM.bind at hx ⊢
  rw [hx]
  cases check s with
  | ok u t => exact hf t
  | error fault t => rfl

/-- A text that is made from one that has been written. -/
theorem Follows.map {x : TranslatorM α} {check : SessionM Unit} {text : α}
    (h : Follows scopes x (thenText check text)) (f : α → β) :
    Follows scopes (do let a ← x; pure (f a)) (thenText check (f text)) :=
  h.bind (follows_pure (f text))

/-- The text of a type in a layout. -/
def Layout.text : Layout → TypeExpr → String
  | .inside, e => e.inline
  | .declared, e => e.definitionText

theorem Layout.text_eq_plain (h : e.fields? = none) (h' : e.isUnion = false) :
    layout.text e = layout.plain e.inline := by
  cases layout with
  | inside => rfl
  | declared =>
    cases e with
    | record fields => cases h
    | union variants => cases h'
    | _ => rfl

theorem Layout.text_record (fields : List (String × TypeExpr)) :
    layout.text (.record fields) = layout.record (fieldTexts fields) := by
  cases fields with
  | nil => cases layout <;> rfl
  | cons f fields => cases layout <;> rfl

theorem Layout.text_union (variants : List TypeExpr) :
    layout.text (.union variants) = layout.union (variantTexts variants) := by
  cases variants with
  | nil => cases layout <;> rfl
  | cons v variants => cases layout <;> rfl

/-! ### The pass -/

/-- A translator that writes a type follows the check of the session. -/
def Written (e : TypeExpr) : Prop :=
  ∀ (layout : Layout) (scopes : List String) (route : Route),
    Follows scopes (write layout route e) (thenText (Session.check scopes route e) (layout.text e))

theorem follows_writeLiterals (seen values : List String) :
    Follows scopes (writeLiterals route seen values)
      (thenText (Session.checkLiterals route seen values)
        (variantTexts (values.map .literal))) := by
  induction values generalizing seen with
  | nil => exact follows_pure _
  | cons value rest ih =>
    rw [writeLiterals, Session.checkLiterals]
    split
    · exact follows_refuse _ _
    · exact (ih (value :: seen)).map _

theorem writeFields_cons (f : String × TypeExpr) (rest : List (String × TypeExpr))
    (seen : List String) :
    writeFields route seen (f :: rest) =
      if f.1 = "" then onSession (Session.refuse route .emptyFieldName)
      else if f.1 ∈ seen then onSession (Session.refuse route (.repeatedField f.1))
      else (do
        let text ← write .inside (route ++ [f.1]) f.2.unmarked
        let others ← writeFields route (f.1 :: seen) rest
        pure ((keyText f.1 ++ optionalMark f.2 ++ ": " ++ text) :: others)) := by
  obtain ⟨name, e⟩ := f
  cases e <;> rfl

theorem follows_writeFields {fields : List (String × TypeExpr)}
    (ih : ∀ f ∈ fields, Written f.2.unmarked) (seen : List String) :
    Follows scopes (writeFields route seen fields)
      (thenText (Session.checkFields scopes route seen fields) (fieldTexts fields)) := by
  induction fields generalizing seen with
  | nil => exact follows_pure _
  | cons f rest ihrest =>
    rw [List.forall_mem_cons] at ih
    rw [writeFields_cons, Session.checkFields_cons, fieldTexts, ← inline_unmarked f.2]
    split
    · exact follows_refuse _ _
    split
    · exact follows_refuse _ _
    · rw [thenText, bind_assoc]
      exact (ih.1 .inside scopes _).bind ((ihrest ih.2 _).map _)

theorem follows_writeVariants {variants : List TypeExpr} (ih : ∀ v ∈ variants, Written v)
    (seen : List String) (index : Nat) :
    Follows scopes (writeVariants route seen index variants)
      (thenText (Session.checkVariants scopes route seen index variants)
        (variantTexts variants)) := by
  induction variants generalizing seen index with
  | nil => exact follows_pure _
  | cons v rest ihrest =>
    rw [List.forall_mem_cons] at ih
    rw [writeVariants, Session.checkVariants]
    cases Session.tag? v with
    | none => exact follows_refuse _ _
    | some tag =>
      dsimp only
      split
      · exact follows_refuse _ _
      · rw [thenText, bind_assoc]
        exact (ih.1 .inside scopes _).bind ((ihrest ih.2 _ _).map _)

theorem written_alias {name : String} {definition : TypeExpr} (ih : Written definition) :
    Written (.alias name definition) := by
  intro layout scopes route
  rw [Layout.text_eq_plain rfl rfl, write, Session.check, thenText, bind_assoc]
  refine Follows.get fun s => Follows.step fun new => ?_
  dsimp only
  -- Only a new alias is entered; its text goes to its place, and its name into the type.
  split
  · rw [bind_assoc]
    refine Follows.step fun _ => ?_
    rw [bind_assoc]
    exact (ih .declared (name :: scopes) _).within.bind (Follows.step fun _ => follows_pure _)
  · exact follows_pure _

/-- A translator that writes a type follows the check of the session and writes the text of the
type. -/
theorem written (e : TypeExpr) : Written e := by
  induction e with
  | primitive kind =>
    intro layout scopes route
    rw [Layout.text_eq_plain rfl rfl]
    exact follows_pure _
  | literal value =>
    intro layout scopes route
    rw [Layout.text_eq_plain rfl rfl]
    exact follows_pure _
  | listOf e ih =>
    intro layout scopes route
    rw [Layout.text_eq_plain rfl rfl]
    exact (ih .inside scopes _).map _
  | dictOf e ih =>
    intro layout scopes route
    rw [Layout.text_eq_plain rfl rfl]
    exact (ih .inside scopes _).map _
  | optional e ih => exact fun layout scopes route => follows_refuse _ _
  | record fields ih =>
    intro layout scopes route
    rw [Layout.text_record]
    exact (follows_writeFields (fun f hf => (ih f hf).2) []).map _
  | union variants ih =>
    intro layout scopes route
    rw [Layout.text_union, write, Session.check]
    refine Follows.map ?_ _
    -- Variants that are all literals are written without their checks as types.
    cases hliterals : Session.literals? variants with
    | some values =>
      obtain rfl := Session.literals?_eq_some.1 hliterals
      exact follows_writeLiterals [] values
    | none =>
      dsimp only
      split
      · exact follows_writeVariants ih [] 0
      · exact follows_refuse _ _
  | «alias» name definition ih => exact written_alias ih
  | reference name =>
    intro layout scopes route
    rw [Layout.text_eq_plain rfl rfl, write, Session.check]
    refine Follows.get fun s => ?_
    dsimp only
    split
    · exact follows_pure _
    · exact follows_refuse _ _

/-! ### Calls -/

/-- The steps of the session that a call stands for. -/
def Call.session : Call → SessionM String
  | .translate e route => Session.inline e route
  | .declare name definition route => Session.declare name definition route

/-- A call follows the session, and leaves no definition open. -/
theorem follows_perform (c : Call) : Follows [] (perform c) c.session := by
  cases c with
  | translate e route => exact written e .inside [] route
  | declare name definition route =>
    refine Follows.step fun new => Follows.step fun _ => follows_ite (follows_pure _) ?_
    exact (written definition .declared [name] _).within.bind (follows_pure _)

end BoundaryTypes.Translator
