/-
  `Calls` — what a call of a translator does to its session.

  A declaration may be refused at once. Otherwise a call turns to a type: `translate` in the
  session as it is, `declare` in one that knows the alias and has given up its place
  (`Based`). There it carries out a check, and what is known of checks in any outcome is
  known of calls: `step` says what every call leaves, `of_error` and `of_ok` what a call
  that fails or succeeds has done.
-/
import BoundaryTypes.Proofs.Session.Outcomes
import BoundaryTypes.Proofs.Translator.OnePass
import BoundaryTypes.Proofs.TypeExpr.Mentions

namespace BoundaryTypes.Translator.Call

open Outcome Session TypeExpr

variable {c : Call} {s t base w : Session} {f : TypeFault}
  {n : String} {D : TypeExpr}

/-- The text of a call that succeeds. -/
def text : Call → String
  | .translate e _ => e.inline
  | .declare name definition _ =>
    if name = jsonValueName then jsonValueDeclaration else definition.declarationText name

/-- The names that a call binds itself. -/
def binds : Call → List String
  | .translate _ _ => []
  | .declare name _ _ => [name]

/-- The aliases in a call. -/
def aliases : Call → List (String × TypeExpr)
  | .translate e _ => e.aliases
  | .declare name definition _ => (TypeExpr.alias name definition).aliases

/-- A name that a call binds is that of one of its aliases. -/
theorem exists_alias_of_binds (c : Call) (h : n ∈ c.binds) : ∃ D, (n, D) ∈ c.aliases := by
  cases c with
  | translate e route => cases h
  | declare name definition route =>
    obtain rfl := List.mem_singleton.1 h
    rw [aliases, aliases_alias]
    exact ⟨definition, List.mem_cons_self⟩

/-- The check of a call. -/
def body : Call → SessionM Unit
  | .translate e route => check [] route e
  | .declare name definition route =>
    if name = jsonValueName then pure () else check [name] (route ++ [name]) definition

/-- The body of a call is a check, among the aliases of the call. -/
theorem checks_body (c : Call) : Checks c.aliases c.binds (fun _ => True) c.body := by
  cases c with
  | translate e route => exact (checks_check e (fun _ h => h) [] route).mono fun _ _ => trivial
  | declare name definition route =>
    rw [body]
    split
    · exact .done
    · refine (checks_check definition (fun a ha => ?_) [name] _).mono fun _ _ => trivial
      rw [aliases, aliases_alias]
      exact List.mem_cons_of_mem _ ha

/-! ### How a call begins -/

/-- A declaration that is refused at once. -/
inductive Refuses : Call → Session → TypeFault → Prop
  | declare {name : String} {definition : TypeExpr} {route : Route} {s : Session} {f : TypeFault}
    (h : Refused s route name definition f) : Refuses (.declare name definition route) s f

/-- What refuses a call goes on to do so as a session learns. -/
theorem Refuses.mono (h : Refuses c s f) (hst : s.Keeps t) : Refuses c t f := by
  cases h with
  | declare h => exact .declare (h.mono hst)

/-- The session in which a call carries out its check. -/
inductive Based : Call → Session → Session → Prop
  | translate {e : TypeExpr} {route : Route} {s : Session} : Based (.translate e route) s s
  | known {name : String} {definition : TypeExpr} {route : Route} {s : Session}
    (h : Familiar s name definition) :
    Based (.declare name definition route) s (s.closePlace name)
  | new {name : String} {definition : TypeExpr} {route : Route} {s : Session}
    (h : New s name definition) :
    Based (.declare name definition route) s ((s.define name definition).closePlace name)

/-- A call is refused at once, or has a session on which its body is run. -/
theorem refuses_or_based (c : Call) (s : Session) :
    (∃ f, Refuses c s f) ∨ ∃ base, Based c s base := by
  cases c with
  | translate e route => exact .inr ⟨s, .translate⟩
  | declare name definition route =>
    rcases refused_or_familiar_or_new s route name definition with ⟨f, hrefused⟩ | hfamiliar | hnew
    · exact .inl ⟨f, .declare hrefused⟩
    · exact .inr ⟨_, .known hfamiliar⟩
    · exact .inr ⟨_, .new hnew⟩

theorem session_of_refuses (h : Refuses c s f) : c.session s = .error f s := by
  cases h with
  | declare h => exact bind_run_of_error _ (register_of_refused h)

/-- A call that is not refused runs its body and then gives its text. -/
theorem Based.session_eq (h : Based c s base) :
    c.session s = (c.body >>= fun _ => pure c.text) base := by
  -- A declaration goes on in the same way with a new alias and with a familiar one.
  have hdeclare : ∀ {name : String} {definition : TypeExpr} {route : Route} {new : Bool}
      {t : Session}, register route name definition s = .ok new t →
      (Call.declare name definition route).session s =
        ((Call.declare name definition route).body >>= fun _ =>
          pure (Call.declare name definition route).text) (t.closePlace name) := by
    intro name definition route new t hregister
    rw [session, Session.declare, bind_run_of_ok _ hregister, bind_run_of_ok _ (modify_run _ t),
      body, text]
    split <;> rfl
  cases h with
  | translate => rfl
  | known h => exact hdeclare h.register_eq
  | new h => exact hdeclare h.register_eq

theorem Based.nameable {name : String} {definition : TypeExpr} {route : Route}
    (h : Based (.declare name definition route) s base) : Nameable s.reserved name definition := by
  cases h with
  | known h => exact h.nameable
  | new h => exact h.nameable

theorem Based.keeps (h : Based c s base) : s.Keeps base := by
  cases h with
  | translate => exact .refl s
  | known h => exact keeps_closePlace s _
  | new h => exact (keeps_define _ h.unknown).trans (keeps_closePlace _ _)

/-- The base of a call knows nothing new but for the names that the call binds. -/
theorem Based.learned (h : Based c s base) (hD : base.Knows n D) : s.Knows n D ∨ n ∈ c.binds := by
  cases h with
  | translate => exact .inl hD
  | known h => exact .inl hD
  | @new name definition route _ h =>
    have hdefined : (s.define name definition).Knows n D := hD
    rcases knows_define_iff.1 hdefined with ⟨rfl, -⟩ | ⟨-, hD⟩
    · exact .inr List.mem_cons_self
    · exact .inl hD

/-- A call gives up the places of the names that it binds, and keeps the others. -/
theorem Based.hoisted (h : Based c s base) :
    base.hoisted = s.hoisted.filter fun place => place.1 ∉ c.binds := by
  cases h with
  | translate => exact (List.filter_eq_self.2 fun place _ => by simp [binds]).symm
  | known h => simp [closePlace, binds]
  | new h => simp [closePlace, define, binds]

theorem Based.settles (h : Based c s base) (hn : n ∈ c.binds) : base.Settles n := by
  cases h with
  | translate => cases hn
  | known h =>
    obtain rfl := List.mem_singleton.1 hn
    exact h.settles
  | @new name definition route _ h =>
    obtain rfl := List.mem_singleton.1 hn
    exact settles_of_knows (D := definition) knows_define

/-- The base of a call is sound with the names that the call binds open. -/
theorem Based.sound (h : Based c s base) (hs : Sound [] s) : Sound c.binds base := by
  cases h with
  | translate => exact hs
  | known h => exact ⟨hs.registered, hs.closePlace.places, fun n => (Based.known h).settles⟩
  | new h => exact (hs.define h).closePlace

/-- A call may begin in any later session, and changes nothing there but its own places. -/
theorem Based.again (h : Based c s base) (hw : base.Keeps w) :
    ∃ base', Based c w base' ∧ w.Keeps base' ∧
      ((∀ n ∈ c.binds, n ∉ w.hoisted.map (·.1)) → base' = w) := by
  -- The alias is familiar by then, so only its place is given up, if it has one.
  have hdeclare : ∀ {name : String} {definition : TypeExpr} {route : Route},
      Familiar w name definition → ∃ base', Based (.declare name definition route) w base' ∧
        w.Keeps base' ∧ ((∀ n ∈ [name], n ∉ w.hoisted.map (·.1)) → base' = w) := by
    intro name definition route hfamiliar
    refine ⟨_, .known hfamiliar, keeps_closePlace w name, fun hnone => ?_⟩
    have hplaces : w.hoisted.filter (fun place => place.1 ≠ name) = w.hoisted := by
      refine List.filter_eq_self.2 fun place hplace => decide_eq_true ?_
      rintro rfl
      exact hnone _ List.mem_cons_self (List.mem_map_of_mem hplace)
    rw [closePlace, hplaces]
  cases h with
  | translate => exact ⟨w, .translate, .refl w, fun _ => rfl⟩
  | known h => exact hdeclare (h.mono ((keeps_closePlace s _).trans hw))
  | new h =>
    refine hdeclare ⟨?_, fun _ => hw.knows _ _ knows_define⟩
    rw [hw.reserved]
    exact h.nameable

/-! ### How a call ends -/

/-- A call that fails was refused, or its check failed. -/
theorem of_error (h : c.session s = .error f t) :
    (Refuses c s f ∧ t = s) ∨ ∃ base, Based c s base ∧ c.body base = .error f t := by
  rcases refuses_or_based c s with ⟨f, hrefuses⟩ | ⟨base, hbased⟩
  · rw [session_of_refuses hrefuses] at h
    cases h
    exact .inl ⟨hrefuses, rfl⟩
  · rw [hbased.session_eq] at h
    rcases bind_run_eq_error.1 h with h | ⟨_, _, _, h⟩
    · exact .inr ⟨base, hbased, h⟩
    · cases h

/-- A call that succeeds has carried out its check, and its text is the one of the call. -/
theorem of_ok {result : String} (h : c.session s = .ok result t) :
    result = c.text ∧ ∃ base, Based c s base ∧ c.body base = .ok () t := by
  rcases refuses_or_based c s with ⟨f, hrefuses⟩ | ⟨base, hbased⟩
  · rw [session_of_refuses hrefuses] at h
    cases h
  · rw [hbased.session_eq] at h
    obtain ⟨_, u, hbody, htext⟩ := bind_run_eq_ok.1 h
    obtain ⟨rfl, rfl⟩ := pure_run_eq_ok.1 htext
    exact ⟨rfl, base, hbased, hbody⟩

/-- A call leaves the session that its body leaves. -/
theorem stateOf_session (h : Based c s base) : stateOf (c.session s) = stateOf (c.body base) := by
  rw [h.session_eq]
  cases hbody : c.body base with
  | error f t => rw [bind_run_of_error _ hbody]; rfl
  | ok u t => rw [bind_run_of_ok _ hbody]; rfl

/-- What a call leaves, whether it succeeds or not. -/
structure Step (c : Call) (s t : Session) : Prop where
  keeps : s.Keeps t
  sound : Sound [] t
  /-- The places that were there stay, but for those of names that the call binds; new ones come
  after them. -/
  places : ∃ kept fresh, t.hoisted = kept ++ fresh ∧
    (kept = s.hoisted ∨ kept = s.hoisted.filter fun place => place.1 ∉ c.binds) ∧
    ∀ place ∈ fresh, Opened c.aliases s t place

theorem Step.refl (hs : Sound [] s) : Step c s s :=
  ⟨.refl s, hs, s.hoisted, [], (List.append_nil _).symm, .inl rfl, nofun⟩

theorem Step.of_extended {fresh : List (String × Option String)} (hs : Sound [] s)
    (h : Based c s base) (hextended : Extended c.aliases base fresh t) : Step c s t := by
  have hsound := hextended.sound (h.sound hs)
  refine ⟨h.keeps.trans hextended.keeps, ⟨hsound.registered, hsound.places, nofun⟩, base.hoisted,
    fresh, hextended.hoisted, .inr h.hoisted, fun place hplace => ?_⟩
  obtain ⟨D, hmet, hnew, hD⟩ := hextended.opened place hplace
  exact ⟨D, hmet, hnew.of_keeps h.keeps, hD⟩

/-- Every call is a step. -/
theorem step (c : Call) (hs : Sound [] s) : Step c s (stateOf (c.session s)) := by
  rcases refuses_or_based c s with ⟨f, hrefuses⟩ | ⟨base, hbased⟩
  · rw [session_of_refuses hrefuses]
    exact .refl hs
  · obtain ⟨fresh, hextended, -⟩ := c.checks_body.extended (hbased.sound hs)
    rw [stateOf_session hbased]
    exact .of_extended hs hbased hextended

/-! ### Names without a place -/

/-- A name that has no place and gets none: it is known, or that of arbitrary JSON. -/
structure Elsewhere (n : String) (s : Session) : Prop where
  settles : s.Settles n
  unplaced : n ∉ s.hoisted.map (·.1)

/-- A name without a place stays so. -/
theorem Step.elsewhere (h : Step c s t) (hn : Elsewhere n s) : Elsewhere n t := by
  obtain ⟨kept, fresh, hhoisted, hkept, hopened⟩ := h.places
  refine ⟨h.keeps.settles hn.settles, fun hmem => ?_⟩
  obtain ⟨place, hplace, rfl⟩ := List.mem_map.1 hmem
  rw [hhoisted] at hplace
  -- A place was there before, or it is that of an alias that was new.
  rcases List.mem_append.1 hplace with hplace | hplace
  · refine hn.unplaced (List.mem_map_of_mem ?_)
    rcases hkept with rfl | rfl
    · exact hplace
    · exact (List.mem_filter.1 hplace).1
  · obtain ⟨D, -, hnew, -⟩ := hopened place hplace
    exact hnew.not_settles hn.settles

/-- The names that a call binds have no place when its check has begun. -/
theorem Based.elsewhere {fresh : List (String × Option String)} (h : Based c s base)
    (hextended : Extended c.aliases base fresh t) (hn : n ∈ c.binds) : Elsewhere n t := by
  refine ⟨hextended.keeps.settles (h.settles hn), ?_⟩
  rw [hextended.hoisted, h.hoisted, List.map_append, List.mem_append, not_or]
  refine ⟨fun hmem => ?_, hextended.not_mem (h.settles hn)⟩
  obtain ⟨place, hplace, rfl⟩ := List.mem_map.1 hmem
  exact absurd hn (of_decide_eq_true (List.mem_filter.1 hplace).2)

end BoundaryTypes.Translator.Call
