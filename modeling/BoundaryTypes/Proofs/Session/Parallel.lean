/-
  `Parallel` — checks of one type that differ only in where they stand.

  A check looks at its route only to report it, and at the session and the open aliases only
  for names that its type mentions. So two checks of a type keep step when the second one
  stands further along a route, and when sessions and open aliases differ only in names that
  the type avoids: they end well together, with the same result, or with faults that differ
  only in the front of the route, and they leave sessions that differ no more than before.

  `Parallel` says this of two steps. It is closed under sequences, and registrations have it by
  what is known of refused, familiar and new aliases; the induction over types is
  `parallel_check`.
-/
import BoundaryTypes.Proofs.Session.Checks

namespace BoundaryTypes

open TypeExpr

/-- The fault with a route in front of its own. -/
def TypeFault.behind (front : Route) (f : TypeFault) : TypeFault := ⟨f.cause, front ++ f.route⟩

namespace Session

variable {α β : Type} {apart : List String} {front route : Route} {name n : String}
  {definition D : TypeExpr} {s t : Session} {f : TypeFault}

/-! ### Sessions that differ in some names -/

/-- Two sessions that differ at most in what they know of the names in `apart`. -/
structure Alike (apart : List String) (s t : Session) : Prop where
  reserved : t.reserved = s.reserved
  definitions : (t.definitions.filter fun d => d.1 ∉ apart) =
    s.definitions.filter fun d => d.1 ∉ apart
  hoisted : t.hoisted = s.hoisted

theorem Alike.refl (apart : List String) (s : Session) : Alike apart s s := ⟨rfl, rfl, rfl⟩

/-- With no name apart, sessions that are alike are one session. -/
theorem Alike.eq (h : Alike [] s t) : t = s := by
  have hall : ∀ definitions : List (String × TypeExpr),
      (definitions.filter fun d => d.1 ∉ []) = definitions :=
    fun definitions => List.filter_eq_self.2 fun d _ => by simp
  have hdefinitions : t.definitions = s.definitions := by
    rw [← hall t.definitions, h.definitions, hall]
  obtain ⟨hreserved, -, hhoisted⟩ := h
  cases s
  cases t
  simp_all

/-- Leaving out the names apart loses no definition of another name. -/
theorem find?_filter_apart (definitions : List (String × TypeExpr)) (hn : n ∉ apart) :
    ((definitions.filter fun d => d.1 ∉ apart).find? fun d => d.1 = n) =
      definitions.find? fun d => d.1 = n := by
  rw [List.find?_filter]
  congr 1
  funext d
  by_cases hd : d.1 = n
  · simp [hd, hn]
  · simp [hd]

/-- Sessions that are alike know the same of every name that is not apart. -/
theorem Alike.knows (h : Alike apart s t) (hn : n ∉ apart) : t.Knows n D ↔ s.Knows n D := by
  have hsame : t.definition? n = s.definition? n := by
    rw [definition?, ← find?_filter_apart t.definitions hn, h.definitions,
      find?_filter_apart s.definitions hn, definition?]
  rw [Knows, Knows, hsame]

theorem Alike.define (h : Alike apart s t) :
    Alike apart (s.define name definition) (t.define name definition) := by
  refine ⟨h.reserved, ?_, h.hoisted⟩
  show ((_ :: t.definitions).filter _) = (_ :: s.definitions).filter _
  rw [List.filter_cons, List.filter_cons, h.definitions]

theorem Alike.openPlace (h : Alike apart s t) : Alike apart (s.openPlace name) (t.openPlace name) :=
  ⟨h.reserved, h.definitions, by simp only [Session.openPlace, h.hoisted]⟩

theorem Alike.fillPlace (h : Alike apart s t) (text : String) :
    Alike apart (s.fillPlace name text) (t.fillPlace name text) :=
  ⟨h.reserved, h.definitions, by simp only [Session.fillPlace, h.hoisted]⟩

/-- A new alias of a name apart makes no difference. -/
theorem alike_define (definition : TypeExpr) (hname : name ∈ apart) :
    Alike apart s (s.define name definition) := by
  refine ⟨rfl, ?_, rfl⟩
  show ((_ :: s.definitions).filter _) = _
  rw [List.filter_cons, if_neg (by simpa using hname)]

/-! ### Steps that keep step -/

/-- Outcomes that differ at most in the front of a route and in the names in `apart`. -/
inductive Abreast (apart : List String) (front : Route) :
    EStateM.Result TypeFault Session α → EStateM.Result TypeFault Session α → Prop
  | ok {a : α} {s t : Session} (h : Alike apart s t) : Abreast apart front (.ok a s) (.ok a t)
  | error {f : TypeFault} {s t : Session} (h : Alike apart s t) :
    Abreast apart front (.error f s) (.error (f.behind front) t)

/-- From sessions that are alike, two steps come to outcomes abreast. -/
def Parallel (apart : List String) (front : Route) (x y : SessionM α) : Prop :=
  ∀ s t, Alike apart s t → Abreast apart front (x s) (y t)

theorem parallel_pure (a : α) : Parallel apart front (pure a) (pure a) := fun _ _ h => .ok h

/-- A refusal further along a route is the same refusal, reported with the longer route. -/
theorem parallel_refuse (cause : Cause) :
    Parallel apart front (refuse route cause : SessionM α) (refuse (front ++ route) cause) :=
  fun _ _ h => .error h

/-- A change of the session keeps step, if it keeps sessions alike. -/
theorem parallel_modify {g : Session → Session}
    (h : ∀ s t, Alike apart s t → Alike apart (g s) (g t)) :
    Parallel apart front (modify g) (modify g) := fun s t hst => .ok (h s t hst)

/-- Steps that keep step can be put in sequence: after a common result they go on abreast, and a
fault ends both. -/
theorem Parallel.bind {x y : SessionM α} {g k : α → SessionM β} (h : Parallel apart front x y)
    (hgk : ∀ a, Parallel apart front (g a) (k a)) : Parallel apart front (x >>= g) (y >>= k) := by
  intro s t hst
  show Abreast apart front (EStateM.bind x g s) (EStateM.bind y k t)
  unfold EStateM.bind
  have hxy := h s t hst
  generalize x s = r at hxy
  generalize y t = r' at hxy
  cases hxy with
  | ok hst => exact hgk _ _ _ hst
  | error hst => exact .error hst

/-- Two checks that branch alike keep step, if their branches do. -/
theorem parallel_ite {p q : Prop} [Decidable p] [Decidable q] {x x' y y' : SessionM α}
    (hpq : p ↔ q) (h : Parallel apart front x y) (h' : Parallel apart front x' y') :
    Parallel apart front (if p then x else x') (if q then y else y') := by
  by_cases hp : p
  · rw [if_pos hp, if_pos (hpq.1 hp)]
    exact h
  · rw [if_neg hp, if_neg fun hq => hp (hpq.2 hq)]
    exact h'

/-! ### Registrations -/

/-- What refuses an alias in one session refuses it in one that is alike, unless its name is apart.
-/
theorem Refused.behind (h : Refused s route name definition f) (hst : Alike apart s t)
    (hname : name ∉ apart) : Refused t (front ++ route) name definition (f.behind front) := by
  have hfault : ∀ cause : Cause, (⟨cause, route ++ [name]⟩ : TypeFault).behind front =
      ⟨cause, front ++ route ++ [name]⟩ := fun cause => by
    rw [TypeFault.behind, List.append_assoc]
  cases h with
  | notTypeName h => exact .notTypeName h
  | wrapperClash htype h =>
    rw [hfault]
    exact .wrapperClash htype (hst.reserved ▸ h)
  | jsonValueRedefined htype hfree hjson h =>
    rw [hfault]
    exact .jsonValueRedefined htype (hst.reserved ▸ hfree) hjson h
  | conflictingAlias htype hfree hjson hknown h =>
    rw [hfault]
    exact .conflictingAlias htype (hst.reserved ▸ hfree) hjson ((hst.knows hname).2 hknown) h

theorem Familiar.alongside (h : Familiar s name definition) (hst : Alike apart s t)
    (hname : name ∉ apart) : Familiar t name definition :=
  ⟨hst.reserved ▸ h.nameable, fun hjson => (hst.knows hname).2 (h.knows hjson)⟩

theorem New.alongside (h : New s name definition) (hst : Alike apart s t) (hname : name ∉ apart) :
    New t name definition := by
  refine ⟨hst.reserved ▸ h.nameable, h.proper, ?_⟩
  cases hknown : t.definition? name with
  | none => rfl
  | some known => exact absurd ((hst.knows hname).1 hknown) (not_knows_of_eq_none h.unknown)

/-- Registrations keep step: an alias is refused, familiar or new to both sessions. -/
theorem parallel_register (hname : name ∉ apart) :
    Parallel apart front (register route name definition)
      (register (front ++ route) name definition) := by
  intro s t hst
  rcases refused_or_familiar_or_new s route name definition with ⟨f, hrefused⟩ | hfamiliar | hnew
  · rw [register_of_refused hrefused, register_of_refused (hrefused.behind hst hname)]
    exact .error hst
  · rw [hfamiliar.register_eq, (hfamiliar.alongside hst hname).register_eq]
    exact .ok hst
  · rw [hnew.register_eq, (hnew.alongside hst hname).register_eq]
    exact .ok hst.define

/-! ### Checks -/

/-- A type that has none of the names as an alias or a reference. -/
def Avoids (apart : List String) (e : TypeExpr) : Prop :=
  e.Everywhere fun p => ∀ n ∈ p.mentioned?, n ∉ apart

/-- A type avoids one name exactly when it does not mention it. -/
theorem avoids_singleton {e : TypeExpr} : Avoids [name] e ↔ e.mentions name = false := by
  rw [← Bool.not_eq_true, mentions_iff]
  constructor
  · rintro h ⟨p, hp, hname⟩
    exact h p hp name hname (List.mem_singleton.2 rfl)
  · rintro h p hp n hn hmem
    obtain rfl := List.mem_singleton.1 hmem
    exact h ⟨p, hp, hn⟩

theorem avoids_nil (e : TypeExpr) : Avoids [] e := fun _ _ _ _ => List.not_mem_nil

/-- The mark of an optional field mentions no name. -/
theorem Avoids.unmarked {e : TypeExpr} (h : Avoids apart e) : Avoids apart e.unmarked := by
  cases e with
  | optional e => exact (everywhere_optional.1 h).2
  | _ => exact h

/-- The open aliases of two checks agree but for the names in `apart`. -/
def SameScopes (apart scopes scopes' : List String) : Prop :=
  ∀ n, n ∉ apart → (n ∈ scopes' ↔ n ∈ scopes)

theorem SameScopes.cons {scopes scopes' : List String} (h : SameScopes apart scopes scopes')
    (name : String) : SameScopes apart (name :: scopes) (name :: scopes') := by
  intro n hn
  rw [List.mem_cons, List.mem_cons, h n hn]

/-- Checks of a type in any places keep step. -/
def KeepsStep (apart : List String) (front : Route) (e : TypeExpr) : Prop :=
  ∀ scopes scopes' route, SameScopes apart scopes scopes' →
    Parallel apart front (check scopes route e) (check scopes' (front ++ route) e)

variable {scopes scopes' seen : List String}

/-- A part of a type keeps step at the next step of the route. -/
theorem KeepsStep.deeper {e : TypeExpr} (h : KeepsStep apart front e)
    (hscopes : SameScopes apart scopes scopes') (label : String) :
    Parallel apart front (check scopes (route ++ [label]) e)
      (check scopes' (front ++ route ++ [label]) e) := by
  rw [List.append_assoc]
  exact h scopes scopes' (route ++ [label]) hscopes

theorem parallel_checkLiterals (values : List String) :
    Parallel apart front (checkLiterals route seen values)
      (checkLiterals (front ++ route) seen values) := by
  induction values generalizing seen with
  | nil => exact parallel_pure _
  | cons value rest ih => exact parallel_ite Iff.rfl (parallel_refuse _) ih

/-- The fields of a record keep step, one after another: what was seen before is the same for both.
-/
theorem parallel_checkFields {fields : List (String × TypeExpr)}
    (h : ∀ f ∈ fields, KeepsStep apart front f.2.unmarked)
    (hscopes : SameScopes apart scopes scopes') :
    Parallel apart front (checkFields scopes route seen fields)
      (checkFields scopes' (front ++ route) seen fields) := by
  induction fields generalizing seen with
  | nil => exact parallel_pure _
  | cons f rest ih =>
    rw [List.forall_mem_cons] at h
    rw [checkFields_cons, checkFields_cons]
    apply parallel_ite Iff.rfl (parallel_refuse _)
    apply parallel_ite Iff.rfl (parallel_refuse _)
    exact (h.1.deeper hscopes f.1).bind fun _ => ih h.2

/-- The variants of a union keep step, each at the step of its own tag. -/
theorem parallel_checkVariants {variants : List TypeExpr} {index : Nat}
    (h : ∀ v ∈ variants, KeepsStep apart front v) (hscopes : SameScopes apart scopes scopes') :
    Parallel apart front (checkVariants scopes route seen index variants)
      (checkVariants scopes' (front ++ route) seen index variants) := by
  induction variants generalizing seen index with
  | nil => exact parallel_pure _
  | cons v rest ih =>
    rw [List.forall_mem_cons] at h
    rw [checkVariants, checkVariants]
    cases tag? v with
    | none => exact parallel_refuse _
    | some tag =>
      apply parallel_ite Iff.rfl (parallel_refuse _)
      exact (h.1.deeper hscopes tag).bind fun _ => ih h.2

/-- An alias whose name is not apart is open for both checks or for neither, so both go into its
definition or neither does. -/
theorem keepsStep_alias (hname : name ∉ apart) (ih : KeepsStep apart front definition) :
    KeepsStep apart front (.alias name definition) := by
  intro scopes scopes' route hscopes
  have hmem : name ∈ scopes' ↔ name ∈ scopes := hscopes name hname
  rw [check_alias, check_alias]
  apply (parallel_register hname).bind
  intro new
  refine parallel_ite (by simp [hmem]) ?_ (parallel_pure _)
  apply (parallel_modify fun _ _ hst => hst.openPlace).bind
  intro _
  apply (ih.deeper (hscopes.cons name) name).bind
  exact fun _ => parallel_modify fun _ _ hst => hst.fillPlace _

/-- **Checks of a type keep step** in sessions and among open aliases that differ only in names
that the type avoids, at the ends of two routes that differ only in their front. -/
theorem parallel_check (e : TypeExpr) (h : Avoids apart e) : KeepsStep apart front e := by
  induction e with
  | primitive kind => exact fun _ _ _ _ => parallel_pure _
  | literal value => exact fun _ _ _ _ => parallel_pure _
  | listOf e ih =>
    have hinside := (everywhere_listOf.1 h).2
    exact fun _ _ _ hscopes => (ih hinside).deeper hscopes listStep
  | dictOf e ih =>
    have hinside := (everywhere_dictOf.1 h).2
    exact fun _ _ _ hscopes => (ih hinside).deeper hscopes dictStep
  | optional e ih => exact fun _ _ _ _ => parallel_refuse _
  | record fields ih =>
    have hinside : ∀ f ∈ fields, Avoids apart f.2 := (everywhere_record.1 h).2
    intro _ _ _ hscopes
    exact parallel_checkFields (fun f hf => (ih f hf).2 (hinside f hf).unmarked) hscopes
  | union variants ih =>
    have hinside := (everywhere_union.1 h).2
    intro scopes scopes' route hscopes
    rw [check, check]
    cases literals? variants with
    | some values => exact parallel_checkLiterals values
    | none =>
      refine parallel_ite Iff.rfl ?_ (parallel_refuse _)
      exact parallel_checkVariants (fun v hv => ih v hv (hinside v hv)) hscopes
  | reference name =>
    -- The type avoids the names apart, and its own name is one that it mentions.
    have hname : name ∉ apart := h.self name rfl
    intro scopes scopes' route hscopes
    rw [check, check]
    exact parallel_ite (hscopes name hname).symm (parallel_pure _) (parallel_refuse _)
  | «alias» name definition ih =>
    obtain ⟨hself, hinside⟩ := everywhere_alias.1 h
    exact keepsStep_alias (hself name rfl) (ih hinside)

end Session

end BoundaryTypes
