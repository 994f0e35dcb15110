/-
  `Checks` — what checks are made of.

  A check refuses, or checks parts one after another, or visits an alias. `Checks` closes
  these under composition and keeps track of the routes at which a fault may come: parts
  that are checked one after another have no such route in common. What holds of a check
  in any case, whether it ends well or not, is proved by induction on `Checks`; a type comes
  in only once, in `checks_check`.
-/
import BoundaryTypes.Proofs.Session.Learning

namespace BoundaryTypes.Session

open Outcome TypeExpr

variable {scopes seen : List String} {route : Route} {name : String} {definition : TypeExpr}
  {met : List (String × TypeExpr)} {s s' t : Session} {f : TypeFault} {x y inside : SessionM Unit}

/-! ### Registrations that are refused -/

/-- Why a registration is refused: the name is none of a type, the file binds it otherwise, or it
has another definition. -/
inductive Refused (s : Session) (route : Route) (name : String) (definition : TypeExpr) :
    TypeFault → Prop
  | notTypeName (h : isTypeName name = false) :
    Refused s route name definition ⟨.notTypeName name, route⟩
  | wrapperClash (htype : isTypeName name = true) (h : name ∈ s.reserved) :
    Refused s route name definition ⟨.wrapperClash name, route ++ [name]⟩
  | jsonValueRedefined (htype : isTypeName name = true) (hfree : name ∉ s.reserved)
    (hjson : name = jsonValueName) (h : definition ≠ .reference jsonValueName) :
    Refused s route name definition ⟨.jsonValueRedefined, route ++ [name]⟩
  | conflictingAlias (htype : isTypeName name = true) (hfree : name ∉ s.reserved)
    (hjson : name ≠ jsonValueName) {known : TypeExpr} (hknown : s.Knows name known)
    (h : known ≠ definition) :
    Refused s route name definition ⟨.conflictingAlias name, route ++ [name]⟩

/-- What is refused once is refused ever after. -/
theorem Refused.mono (h : Refused s route name definition f) (hst : s.Keeps t) :
    Refused t route name definition f := by
  cases h with
  | notTypeName h => exact .notTypeName h
  | wrapperClash htype h => exact .wrapperClash htype (hst.reserved ▸ h)
  | jsonValueRedefined htype hfree hjson h =>
    exact .jsonValueRedefined htype (hst.reserved ▸ hfree) hjson h
  | conflictingAlias htype hfree hjson hknown h =>
    exact .conflictingAlias htype (hst.reserved ▸ hfree) hjson (hst.knows _ _ hknown) h

theorem Refused.route_eq (h : Refused s route name definition f) :
    f.route = route ∨ f.route = route ++ [name] := by
  cases h with
  | notTypeName => exact .inl rfl
  | _ => exact .inr rfl

/-- A registration that fails was refused for one of the reasons, and leaves the session as it was.
-/
theorem refused_of_register (h : register route name definition s = .error f s') :
    Refused s route name definition f ∧ s' = s := by
  rw [register, bind_run_eq_error] at h
  obtain hget | ⟨_, _, hget, h⟩ := h
  · cases hget
  cases hget
  -- The conditions in the order in which they are asked.
  split at h
  · next htype =>
    cases h
    exact ⟨.notTypeName (by simpa using htype), rfl⟩
  next htype =>
  have htype : isTypeName name = true := by simpa using htype
  split at h
  · next hreserved =>
    cases h
    exact ⟨.wrapperClash htype hreserved, rfl⟩
  next hfree =>
  split at h
  · next hjson =>
    split at h
    · cases h
    · next hne =>
      cases h
      refine ⟨.jsonValueRedefined htype hfree hjson fun heq => hne ?_, rfl⟩
      rw [heq, hjson]
      rfl
  next hjson =>
  cases hd : s.definition? name with
  | none =>
    rw [hd] at h
    cases h
  | some known =>
    rw [hd] at h
    dsimp only at h
    split at h
    · cases h
    · next hne =>
      cases h
      exact ⟨.conflictingAlias htype hfree hjson hd hne, rfl⟩

/-- Each reason for a refusal is reported, since those that are looked for before it do not hold. -/
theorem register_of_refused (h : Refused s route name definition f) :
    register route name definition s = .error f s := by
  rw [register, bind_run_eq_error]
  refine .inr ⟨s, s, rfl, ?_⟩
  cases h with
  | notTypeName h =>
    rw [if_pos (by simp [h])]
    rfl
  | wrapperClash htype h =>
    rw [if_neg (by simp [htype]), if_pos h]
    rfl
  | jsonValueRedefined htype hfree hjson h =>
    have hne : TypeExpr.alias name definition ≠ TypeExpr.jsonValue :=
      fun heq => h (TypeExpr.alias.inj heq).2
    rw [if_neg (by simp [htype]), if_neg hfree, if_pos hjson, if_neg hne]
    rfl
  | conflictingAlias htype hfree hjson hknown h =>
    rw [if_neg (by simp [htype]), if_neg hfree, if_neg hjson, hknown]
    dsimp only
    rw [if_neg h]
    rfl

/-! ### New and familiar aliases -/

/-- An alias that a session does not know and may get to know. -/
structure New (s : Session) (name : String) (definition : TypeExpr) : Prop where
  nameable : Nameable s.reserved name definition
  proper : name ≠ jsonValueName
  unknown : s.definition? name = none

theorem New.not_settles (h : New s name definition) : ¬ s.Settles name := by
  rintro (hjson | hsome)
  · exact h.proper hjson
  · rw [h.unknown] at hsome
    cases hsome

/-- An alias that a session knows, or the type of arbitrary JSON: it changes nothing, now or
later. -/
structure Familiar (s : Session) (name : String) (definition : TypeExpr) : Prop where
  nameable : Nameable s.reserved name definition
  knows : name ≠ jsonValueName → s.Knows name definition

/-- What is familiar to a session is so to any that knows more. -/
theorem Familiar.mono (h : Familiar s name definition) (hst : s.Keeps t) :
    Familiar t name definition :=
  ⟨hst.reserved ▸ h.nameable, fun hjson => hst.knows _ _ (h.knows hjson)⟩

/-- A new alias is familiar from the moment at which it is entered. -/
theorem New.familiar (h : New s name definition) (hst : (s.enter name definition).Keeps t) :
    Familiar t name definition := by
  have hkeeps := (keeps_enter definition h.unknown).trans hst
  exact ⟨hkeeps.reserved ▸ h.nameable, fun _ => hst.knows _ _ knows_enter⟩

theorem Familiar.settles (h : Familiar s name definition) : s.Settles name := by
  by_cases hjson : name = jsonValueName
  · exact .inl hjson
  · exact settles_of_knows (h.knows hjson)

/-- A familiar alias is registered without a change. -/
theorem Familiar.register_eq (h : Familiar s name definition) :
    register route name definition s = .ok false s := by
  by_cases hjson : name = jsonValueName
  · exact register_iff.2 ⟨h.nameable, .json hjson⟩
  · exact register_iff.2 ⟨h.nameable, .known hjson (h.knows hjson)⟩

/-- A new alias is registered by its definition. -/
theorem New.register_eq (h : New s name definition) :
    register route name definition s = .ok true (s.define name definition) :=
  register_iff.2 ⟨h.nameable, .new h.proper h.unknown⟩

/-- An alias is refused, or changes nothing, or is new. -/
theorem refused_or_familiar_or_new (s : Session) (route : Route) (name : String)
    (definition : TypeExpr) :
    (∃ f, Refused s route name definition f) ∨ Familiar s name definition ∨
      New s name definition := by
  cases hregister : register route name definition s with
  | error f t => exact .inl ⟨f, (refused_of_register hregister).1⟩
  | ok new t =>
    obtain ⟨hname, hregistered⟩ := register_iff.1 hregister
    cases hregistered with
    | json hjson => exact .inr (.inl ⟨hname, fun hne => absurd hjson hne⟩)
    | known hjson hknows => exact .inr (.inl ⟨hname, fun _ => hknows⟩)
    | new hjson hunknown => exact .inr (.inr ⟨hname, hjson, hunknown⟩)

/-! ### Visits of aliases -/

/-- Visits an alias; the definition of a new one is checked inside its place. -/
def visit (scopes : List String) (route : Route) (name : String) (definition : TypeExpr)
    (inside : SessionM Unit) : SessionM Unit := do
  let new ← register route name definition
  if new && name ∉ scopes then
    modify (·.openPlace name)
    inside
    modify (·.fillPlace name (definition.declarationText name))

/-- The check of an alias is a visit with the check of its definition inside. -/
theorem check_alias :
    check scopes route (.alias name definition) =
      visit scopes route name definition (check (name :: scopes) (route ++ [name]) definition) := by
  rw [check]
  rfl

/-- A visit does not go into a familiar alias. -/
theorem visit_of_familiar (h : Familiar s name definition) :
    visit scopes route name definition inside s = .ok () s := by
  rw [visit, bind_run_of_ok _ h.register_eq]
  rfl

theorem visit_of_refused (h : Refused s route name definition f) :
    visit scopes route name definition inside s = .error f s :=
  bind_run_of_error _ (register_of_refused h)

/-- A visit goes into a new alias between the opening of its place and the filling of it. -/
theorem visit_of_new (h : New s name definition) (hscope : name ∉ scopes) :
    visit scopes route name definition inside s =
      (inside >>= fun _ => modify (·.fillPlace name (definition.declarationText name)))
        (s.enter name definition) := by
  rw [visit, bind_run_of_ok _ h.register_eq, if_pos (by simp [hscope])]
  rfl

/-- The names of the definitions that a check is inside of are settled. -/
def Inside (scopes : List String) (s : Session) : Prop := ∀ n ∈ scopes, s.Settles n

theorem Inside.mono (h : Inside scopes s) (hst : s.Keeps t) : Inside scopes t :=
  fun n hn => hst.settles (h n hn)

/-- What a visit does: it is refused, or changes nothing, or goes inside, where it may fail. -/
inductive Visited (s : Session) (route : Route) (name : String) (definition : TypeExpr)
    (inside : SessionM Unit) : EStateM.Result TypeFault Session Unit → Prop
  | refused {f : TypeFault} (h : Refused s route name definition f) :
    Visited s route name definition inside (.error f s)
  | passed (h : Familiar s name definition) : Visited s route name definition inside (.ok () s)
  | failed {f : TypeFault} {t : Session} (h : New s name definition)
    (hinside : inside (s.enter name definition) = .error f t) :
    Visited s route name definition inside (.error f t)
  | entered {t : Session} (h : New s name definition)
    (hinside : inside (s.enter name definition) = .ok () t) :
    Visited s route name definition inside
      (.ok () (t.fillPlace name (definition.declarationText name)))

/-- How a visit ends: the alias is refused or familiar, or its inside is visited and ends well or
not. -/
theorem visited {result : EStateM.Result TypeFault Session Unit} (hscopes : Inside scopes s)
    (h : visit scopes route name definition inside s = result) :
    Visited s route name definition inside result := by
  rw [← h]
  rcases refused_or_familiar_or_new s route name definition with ⟨f, hrefused⟩ | hfamiliar | hnew
  · rw [visit_of_refused hrefused]
    exact .refused hrefused
  · rw [visit_of_familiar hfamiliar]
    exact .passed hfamiliar
  · -- An alias that is new is in no scope, so its definition is checked.
    rw [visit_of_new hnew fun hmem => hnew.not_settles (hscopes name hmem)]
    cases hinside : inside (s.enter name definition) with
    | error f t =>
      rw [bind_run_of_error _ hinside]
      exact .failed hnew hinside
    | ok u t =>
      rw [bind_run_of_ok _ hinside]
      exact .entered hnew hinside

/-! ### What checks are made of -/

/-- Programs that checks are made of, inside definitions of the aliases in `scopes`. They visit
aliases out of `met`, and their faults have routes in a set. -/
inductive Checks (met : List (String × TypeExpr)) :
    List String → (Route → Prop) → SessionM Unit → Prop
  | done {scopes : List String} {P : Route → Prop} : Checks met scopes P (pure ())
  | refuse {scopes : List String} {P : Route → Prop} {route : Route} {cause : Cause}
    (h : P route) : Checks met scopes P (refuse route cause)
  | seq {scopes : List String} {P Q : Route → Prop} {x y : SessionM Unit}
    (hx : Checks met scopes P x) (hy : Checks met scopes Q y) (apart : ∀ r, P r → ¬ Q r) :
    Checks met scopes (fun r => P r ∨ Q r) (x >>= fun _ => y)
  | visit {scopes : List String} {P : Route → Prop} {route : Route} {name : String}
    {definition : TypeExpr} {inside : SessionM Unit} (hmet : (name, definition) ∈ met)
    (hinside : Checks met (name :: scopes) P inside) :
    Checks met scopes (fun r => (r = route ∨ r = route ++ [name]) ∨ P r)
      (visit scopes route name definition inside)
  | mono {scopes : List String} {P Q : Route → Prop} {x : SessionM Unit}
    (h : Checks met scopes P x) (hPQ : ∀ r, P r → Q r) : Checks met scopes Q x

/-- The routes to the parts of a type that stands at the end of a route. -/
def Below (route : Route) (r : Route) : Prop := route <+: r

/-- The routes to a type and to those of its parts that are not under the labels in `seen`. -/
def Beside (route : Route) (seen : List String) (r : Route) : Prop :=
  r = route ∨ ∃ label, label ∉ seen ∧ Below (route ++ [label]) r

theorem Below.step {label : String} {r : Route} (h : Below (route ++ [label]) r) : Below route r :=
  (List.prefix_append route [label]).trans h

/-- What is beside some labels of a type is below the type. -/
theorem Beside.below {r : Route} (h : Beside route seen r) : Below route r := by
  rcases h with rfl | ⟨label, -, h⟩
  · exact List.prefix_refl r
  · exact h.step

/-- What is under a label is not beside it. -/
theorem not_beside_of_below {label : String} {r : Route} (h : Below (route ++ [label]) r) :
    ¬ Beside route (label :: seen) r := by
  rintro (rfl | ⟨other, hother, h'⟩)
  · have hlength := h.length_le
    rw [List.length_append] at hlength
    exact absurd hlength (by simp)
  · -- Two prefixes of one route that are equally long are the same.
    have heq : route ++ [label] = route ++ [other] :=
      List.prefix_or_prefix_of_prefix h h' |>.elim
        (fun hp => hp.eq_of_length (by simp)) (fun hp => (hp.eq_of_length (by simp)).symm)
    obtain rfl := List.singleton_inj.1 (List.append_cancel_left heq)
    exact hother List.mem_cons_self

/-- A part under a label that is not seen yet, and then what is beside it. -/
theorem Checks.part {label : String} (hlabel : label ∉ seen)
    (hx : Checks met scopes (Below (route ++ [label])) x)
    (hy : Checks met scopes (Beside route (label :: seen)) y) :
    Checks met scopes (Beside route seen) (x >>= fun _ => y) := by
  refine (Checks.seq hx hy fun r => not_beside_of_below).mono fun r h => ?_
  rcases h with h | rfl | ⟨other, hother, h⟩
  · exact .inr ⟨label, hlabel, h⟩
  · exact .inl rfl
  · exact .inr ⟨other, fun hmem => hother (List.mem_cons_of_mem _ hmem), h⟩

/-- The check of an enumeration has no parts: it refuses a repetition, or is done. -/
theorem checks_checkLiterals {values : List String} :
    Checks met scopes (Beside route []) (checkLiterals route seen values) := by
  induction values generalizing seen with
  | nil => exact .done
  | cons value rest ih =>
    rw [checkLiterals]
    split
    · exact .refuse (.inl rfl)
    · exact ih

/-- The check of a record is made of those of its fields, each below the label of its own. -/
theorem checks_checkFields {fields : List (String × TypeExpr)}
    (ih : ∀ f ∈ fields, ∀ route,
      Checks met scopes (Below route) (check scopes route f.2.unmarked)) :
    Checks met scopes (Beside route seen) (checkFields scopes route seen fields) := by
  induction fields generalizing seen with
  | nil => exact .done
  | cons f rest ihrest =>
    rw [List.forall_mem_cons] at ih
    rw [checkFields_cons]
    split
    · exact .refuse (.inl rfl)
    split
    · exact .refuse (.inl rfl)
    · next hseen => exact .part hseen (ih.1 _) (ihrest ih.2)

/-- The check of a union is made of those of its variants, each below its own tag. -/
theorem checks_checkVariants {variants : List TypeExpr} {index : Nat}
    (ih : ∀ v ∈ variants, ∀ route, Checks met scopes (Below route) (check scopes route v)) :
    Checks met scopes (Beside route seen) (checkVariants scopes route seen index variants) := by
  induction variants generalizing seen index with
  | nil => exact .done
  | cons v rest ihrest =>
    rw [List.forall_mem_cons] at ih
    rw [checkVariants]
    -- The tag of a variant is its label on the route.
    cases tag? v with
    | none => exact .refuse (.inl rfl)
    | some tag =>
      dsimp only
      split
      · exact .refuse (.inl rfl)
      · next hseen => exact .part hseen (ih.1 _) (ihrest ih.2)

/-- The check of a type visits aliases of the type, and has its faults in the type. -/
theorem checks_check (e : TypeExpr) (hmet : ∀ a ∈ e.aliases, a ∈ met) (scopes : List String)
    (route : Route) : Checks met scopes (Below route) (check scopes route e) := by
  induction e generalizing scopes route with
  | primitive kind => exact .done
  | literal value => exact .done
  | listOf e ih =>
    rw [aliases_listOf] at hmet
    exact (ih hmet scopes (route ++ [listStep])).mono fun r => Below.step
  | dictOf e ih =>
    rw [aliases_dictOf] at hmet
    exact (ih hmet scopes (route ++ [dictStep])).mono fun r => Below.step
  | optional e ih => exact .refuse (List.prefix_refl route)
  | record fields ih =>
    rw [aliases_record] at hmet
    refine (checks_checkFields fun f hf route => (ih f hf).2 ?_ scopes route).mono
      fun r => Beside.below
    rw [aliases_unmarked]
    exact fun a ha => hmet a (List.mem_flatMap.2 ⟨f, hf, ha⟩)
  | union variants ih =>
    rw [aliases_union] at hmet
    rw [check]
    cases literals? variants with
    | some values => exact checks_checkLiterals.mono fun r => Beside.below
    | none =>
      dsimp only
      split
      · refine (checks_checkVariants fun v hv route => ih v hv ?_ scopes route).mono
          fun r => Beside.below
        exact fun a ha => hmet a (List.mem_flatMap.2 ⟨v, hv, ha⟩)
      · exact .refuse (List.prefix_refl route)
  | reference name =>
    rw [check]
    split
    · exact .done
    · exact .refuse (List.prefix_refl route)
  | «alias» name definition ih =>
    rw [aliases_alias, List.forall_mem_cons] at hmet
    rw [check_alias]
    refine (Checks.visit hmet.1 (ih hmet.2 (name :: scopes) (route ++ [name]))).mono fun r h => ?_
    rcases h with (rfl | rfl) | h
    · exact List.prefix_refl r
    · exact List.prefix_append route [name]
    · exact h.step

end BoundaryTypes.Session
