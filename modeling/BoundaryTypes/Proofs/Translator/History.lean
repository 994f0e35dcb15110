/-
  `History` — what any sequence of calls leaves, faults included.

  Between calls a translator is `Idle`: it is inside no definition, and its session is sound.
  One call keeps that, however it ends (`Idle.step`), and so does every sequence of calls.
  From there come the two results. The text of a call is a function of the call, so that two
  translators with different histories may disagree on whether a call succeeds but not on its
  text (`sameTexts_after`). And what a translator has registered, placed or declared at some
  time binds it for all later calls (`invariant_after`).
-/
import BoundaryTypes.Proofs.Translator.Calls

namespace BoundaryTypes.Translator

open Outcome Session TypeExpr Call

variable {reserved : List String} {t u : Translator} {c : Call} {f : TypeFault} {text n : String}
  {D : TypeExpr}

/-! ### Between calls -/

/-- What holds of a translator between calls. -/
structure Idle (reserved : List String) (t : Translator) : Prop where
  scopes : t.scopes = []
  reserved : t.session.reserved = reserved
  sound : Sound [] t.session

theorem idle_new (reserved : List String) : Idle reserved (new reserved) :=
  ⟨rfl, rfl, sound_empty reserved⟩

theorem Idle.perform_eq (h : Idle reserved t) (c : Call) :
    perform c t = onStack [] (c.session t.session) := by
  have hfollows := follows_perform c t.session
  rw [← h.scopes] at hfollows ⊢
  exact hfollows

theorem Idle.of_ok (h : Idle reserved t) (hc : perform c t = .ok text u) :
    c.session t.session = .ok text u.session := by
  rw [h.perform_eq] at hc
  cases hrun : c.session t.session with
  | ok a s =>
    rw [hrun] at hc
    cases hc
    rfl
  | error f s =>
    rw [hrun] at hc
    cases hc

theorem Idle.of_error (h : Idle reserved t) (hc : perform c t = .error f u) :
    c.session t.session = .error f u.session := by
  rw [h.perform_eq] at hc
  cases hrun : c.session t.session with
  | ok a s =>
    rw [hrun] at hc
    cases hc
  | error f s =>
    rw [hrun] at hc
    cases hc
    rfl

/-- A fault that leaves the session leaves the translator. -/
theorem Idle.error (h : Idle reserved t) (hrun : c.session t.session = .error f t.session) :
    perform c t = .error f t := by
  -- Nothing else is in a translator than its session and the open aliases, of which there are none.
  have ht : t = ⟨t.session, []⟩ := by rw [← h.scopes]
  rw [h.perform_eq, hrun, onStack, ← ht]

/-- A call leaves an idle translator, whether it succeeds or not. -/
theorem Idle.step (h : Idle reserved t) (c : Call) :
    Idle reserved (stateOf (perform c t)) ∧
      Step c t.session (stateOf (perform c t)).session := by
  have hstep := c.step h.sound
  have hstate : stateOf (perform c t) = ⟨stateOf (c.session t.session), []⟩ := by
    rw [h.perform_eq]
    cases c.session t.session <;> rfl
  rw [hstate]
  exact ⟨⟨rfl, hstep.keeps.reserved.trans h.reserved, hstep.sound⟩, hstep⟩

/-- So does every sequence of calls; nothing that is known is forgotten, and a name without a place
gets none. -/
theorem Idle.run (h : Idle reserved t) (calls : List Call) :
    Idle reserved (after t calls) ∧ t.session.Keeps (after t calls).session ∧
      ∀ n, Elsewhere n t.session → Elsewhere n (after t calls).session := by
  induction calls generalizing t with
  | nil => exact ⟨h, .refl _, fun _ hn => hn⟩
  | cons c rest ih =>
    obtain ⟨hidle, hstep⟩ := h.step c
    obtain ⟨hrest, hkeeps, helsewhere⟩ := ih hidle
    exact ⟨hrest, hstep.keeps.trans hkeeps, fun n hn => helsewhere n (hstep.elsewhere hn)⟩

theorem idle_after (reserved : List String) (calls : List Call) :
    Idle reserved (after (new reserved) calls) :=
  ((idle_new reserved).run calls).1

/-! ### Texts -/

theorem Idle.text_eq (h : Idle reserved t) (hc : perform c t = .ok text u) : text = c.text :=
  (Call.of_ok (h.of_ok hc)).1

/-- The text in a place is the declaration of the alias. -/
theorem Idle.place_text (h : Idle reserved t) (hD : t.session.Knows n D)
    (hplace : (n, some text) ∈ t.session.hoisted) :
    n ≠ jsonValueName ∧ text = D.declarationText n := by
  obtain ⟨known, hknown, htext⟩ := h.sound.places _ hplace
  obtain rfl := hD.unique hknown
  exact ⟨(h.sound.registered n D hD).2, htext text rfl⟩

/-- Two translators that give the same texts, where they give one. -/
structure SameTexts (t t' : Translator) : Prop where
  translate : ∀ e route route' text text' u u', Translator.translate e route t = .ok text u →
    Translator.translate e route' t' = .ok text' u' → text = text'
  declare : ∀ n D route route' text text' u u', Translator.declare n D route t = .ok text u →
    Translator.declare n D route' t' = .ok text' u' → text = text'
  /-- A filled place has the same text as any other of the same alias. -/
  places : ∀ n D text text', t.session.Knows n D → t'.session.Knows n D →
    (n, some text) ∈ t.session.hoisted → (n, some text') ∈ t'.session.hoisted → text = text'
  /-- The text in a place is the one that a declaration of the alias gives anywhere. -/
  declared : ∀ n D route text text' u', t.session.Knows n D → (n, some text) ∈ t.session.hoisted →
    Translator.declare n D route t' = .ok text' u' → text = text'

/-- **Texts do not depend on the history.** Take any two translators, with any reserved names, after
any calls, successful or not. If a type can be written with both, or an alias declared, then the
texts are the same, whatever the routes. Filled places of the same alias have the same text, and it
is the one that a declaration of the alias gives. -/
theorem sameTexts_after (reserved reserved' : List String) (calls calls' : List Call) :
    SameTexts (after (new reserved) calls) (after (new reserved') calls') := by
  have h := idle_after reserved calls
  have h' := idle_after reserved' calls'
  constructor
  · intro e route route' text text' u u' hok hok'
    have htext := h.text_eq (c := .translate e route) hok
    have htext' := h'.text_eq (c := .translate e route') hok'
    exact htext.trans htext'.symm
  · intro n D route route' text text' u u' hok hok'
    have htext := h.text_eq (c := .declare n D route) hok
    have htext' := h'.text_eq (c := .declare n D route') hok'
    exact htext.trans htext'.symm
  · intro n D text text' hD hD' hplace hplace'
    exact (h.place_text hD hplace).2.trans (h'.place_text hD' hplace').2.symm
  · intro n D route text text' u' hD hplace hok
    obtain ⟨hjson, htext⟩ := h.place_text hD hplace
    have htext' := h'.text_eq (c := .declare n D route) hok
    rw [Call.text, if_neg hjson] at htext'
    exact htext.trans htext'.symm

/-- An alias with a place in one history, and declared after two failures in another. -/
theorem sameTexts_after_node :
    let node := TypeExpr.listOf (.reference "Node")
    let t := after (new []) [.translate (.alias "Node" node) []]
    let t' := after (new ["App"]) [.declare "App" node [], .translate (.reference "Node") ["x"]]
    SameTexts t t' ∧ t.session.Knows "Node" node ∧
      ("Node", some "type Node = Node[];") ∈ t.session.hoisted ∧
      ∃ u, Translator.declare "Node" node ["y"] t' = .ok "type Node = Node[];" u := by
  intro node t t'
  exact ⟨sameTexts_after [] ["App"] _ _, rfl, List.mem_cons_self, _, rfl⟩

/-! ### Promises for later calls -/

/-- What holds of a translator at any time, and of all calls after it. -/
structure Invariant (reserved : List String) (t : Translator) : Prop where
  /-- No definition is open, so that no reference is resolved. -/
  scopes : t.scopes = []
  unresolved : ∀ n route,
    translate (.reference n) route t = .error ⟨.unresolved n, route⟩ t
  /-- A registered alias keeps its definition, and no other is let in. -/
  keeps : ∀ n D, t.session.Knows n D → ∀ calls, (after t calls).session.Knows n D
  conflicts : ∀ n D other, t.session.Knows n D → other ≠ D → ∀ calls route,
    translate (.alias n other) route (after t calls) =
        .error ⟨.conflictingAlias n, route ++ [n]⟩ (after t calls) ∧
      declare n other route (after t calls) =
        .error ⟨.conflictingAlias n, route ++ [n]⟩ (after t calls)
  /-- A place is that of a registered alias that the file may bind, and its text, if it has one, is
  the declaration of the alias. -/
  places : ∀ place ∈ t.session.hoisted, isTypeName place.1 = true ∧ place.1 ∉ reserved ∧
    place.1 ≠ jsonValueName ∧ ∃ D, t.session.Knows place.1 D ∧
      ∀ text, place.2 = some text → text = D.declarationText place.1
  /-- A declared alias has no place, and gets none. -/
  declared : ∀ n D route text u, declare n D route t = .ok text u →
    ∀ calls, n ∉ (after u calls).session.hoisted.map (·.1)

theorem Idle.refuses (h : Idle reserved t) {other : TypeExpr} (hD : t.session.Knows n D)
    (hne : other ≠ D) (route : Route) :
    Refused t.session route n other ⟨.conflictingAlias n, route ++ [n]⟩ := by
  obtain ⟨hname, hjson⟩ := h.sound.registered n D hD
  exact .conflictingAlias hname.typeName hname.free hjson hD hne.symm

/-- **The invariant of a translator.** After any calls, successful or not: no definition is open; an
alias that is registered keeps its definition, and every call with another one is refused; places
are those of registered aliases, with their own declarations; and an alias that was declared never
gets a place again. -/
theorem invariant_after (reserved : List String) (calls : List Call) :
    Invariant reserved (after (new reserved) calls) := by
  have h := idle_after reserved calls
  -- Nothing but the invariant is used of the calls that were made.
  generalize after (new reserved) calls = t at h
  constructor
  · exact h.scopes
  · intro n route
    exact h.error (c := .translate (.reference n) route) rfl
  · intro n D hD calls
    exact (h.run calls).2.1.knows n D hD
  · intro n D other hD hne calls route
    obtain ⟨hlater, hkeeps, -⟩ := h.run calls
    have hrefused := hlater.refuses (hkeeps.knows n D hD) hne route
    constructor
    · refine hlater.error (c := .translate (.alias n other) route) ?_
      rw [Call.session, Session.inline, check_alias]
      exact bind_run_of_error _ (visit_of_refused hrefused)
    · exact hlater.error (c := .declare n other route) (session_of_refuses (.declare hrefused))
  · intro place hplace
    obtain ⟨D, hD, htext⟩ := h.sound.places place hplace
    obtain ⟨hname, hjson⟩ := h.sound.registered _ _ hD
    exact ⟨hname.typeName, h.reserved ▸ hname.free, hjson, D, hD, htext⟩
  · intro n D route text u hok calls
    obtain ⟨-, base, hbased, hbody⟩ := Call.of_ok (h.of_ok (c := .declare n D route) hok)
    obtain ⟨_, hextended, -⟩ := (checks_body _).extended_of_ok (hbased.sound h.sound) hbody
    have hidle := (h.step (.declare n D route)).1
    have hperform : perform (.declare n D route) t = .ok text u := hok
    rw [hperform] at hidle
    exact ((hidle.run calls).2.2 n (hbased.elsewhere hextended List.mem_cons_self)).unplaced

/-- A history with a failure inside a definition, which is open still. -/
theorem invariant_after_open :
    let node := TypeExpr.listOf (.reference "Node")
    let t := after (new ["App"])
      [.translate (.alias "Open" (.reference "B")) [], .translate (.alias "Node" node) []]
    Invariant ["App"] t ∧
      t.session.hoisted = [("Open", none), ("Node", some "type Node = Node[];")] ∧
      t.session.Knows "Open" (.reference "B") ∧
      ∃ u, declare "Node" node [] t = .ok "type Node = Node[];" u := by
  intro node t
  exact ⟨invariant_after ["App"] _, rfl, rfl, _, rfl⟩

end BoundaryTypes.Translator
