/-
  `Steps` — when a step of a session ends well.

  There is one statement for each form of a type, and each says everything that a
  check of the form can do. What a form asks of itself (`TypeExpr.WellShaped`) is cut
  from the checks of its parts, which `checkAll` carries out one after another. Routes
  only serve the words of a fault.
-/
import BoundaryTypes.Proofs.Outcome
import BoundaryTypes.Proofs.TypeExpr.Shape

namespace BoundaryTypes.Session

open Outcome TypeExpr

variable {scopes seen : List String} {route : Route} {name : String} {definition e : TypeExpr}
  {s s' : Session} {u : Unit}

theorem refuse_run_ne_ok {α : Type} {cause : Cause} {a : α} :
    (refuse route cause : SessionM α) s ≠ .ok a s' := by
  intro h
  cases h

theorem pass_iff : (pure () : SessionM Unit) s = .ok u s' ↔ s' = s := by
  rw [pure_run_eq_ok, eq_comm (a := s')]
  exact and_iff_right rfl

/-! ### Registration -/

/-- A session with one more alias. -/
def define (s : Session) (name : String) (definition : TypeExpr) : Session :=
  { s with definitions := (name, definition) :: s.definitions }

/-- Whether a file whose wrapper binds the reserved names may bind an alias. -/
structure Nameable (reserved : List String) (name : String) (definition : TypeExpr) : Prop where
  typeName : isTypeName name = true
  free : name ∉ reserved
  /-- The type of arbitrary JSON has one definition. -/
  canonical : name = jsonValueName → definition = .reference jsonValueName

/-- What a registration does: nothing for the type of arbitrary JSON and for an alias that is known,
and otherwise it makes the alias known. -/
inductive Registered (s : Session) (name : String) (definition : TypeExpr) : Bool → Session → Prop
  | json (h : name = jsonValueName) : Registered s name definition false s
  | known (h : name ≠ jsonValueName) (hd : s.definition? name = some definition) :
    Registered s name definition false s
  | new (h : name ≠ jsonValueName) (hd : s.definition? name = none) :
    Registered s name definition true (s.define name definition)

theorem registered_of_register {new : Bool} (h : register route name definition s = .ok new s') :
    Nameable s.reserved name definition ∧ Registered s name definition new s' := by
  rw [register, bind_run_eq_ok] at h
  obtain ⟨_, _, hget, h⟩ := h
  cases hget
  split at h
  · exact absurd h refuse_run_ne_ok
  next htype =>
  split at h
  · exact absurd h refuse_run_ne_ok
  next hfree =>
  have htype : isTypeName name = true := by simpa using htype
  split at h
  · next hjson =>
    -- The type of arbitrary JSON is never registered: it may only be given as it is.
    split at h
    · next heq =>
      obtain ⟨rfl, rfl⟩ := pure_run_eq_ok.1 h
      exact ⟨⟨htype, hfree, fun _ => (TypeExpr.alias.inj heq).2⟩, .json hjson⟩
    · exact absurd h refuse_run_ne_ok
  · next hjson =>
    refine ⟨⟨htype, hfree, fun hj => absurd hj hjson⟩, ?_⟩
    cases hd : s.definition? name with
    | none =>
      rw [hd] at h
      cases h
      exact .new hjson hd
    | some known =>
      -- A name that is known passes with the definition that it has, and with no other.
      rw [hd] at h
      dsimp only at h
      split at h
      · next heq =>
        obtain ⟨rfl, rfl⟩ := pure_run_eq_ok.1 h
        exact .known hjson (heq ▸ hd)
      · exact absurd h refuse_run_ne_ok

theorem register_of_registered {new : Bool} (hname : Nameable s.reserved name definition)
    (h : Registered s name definition new s') :
    register route name definition s = .ok new s' := by
  rw [register, bind_run_eq_ok]
  refine ⟨s, s, rfl, ?_⟩
  rw [if_neg (by simp [hname.typeName]), if_neg hname.free]
  cases h with
  | json hjson =>
    have heq : TypeExpr.alias name definition = TypeExpr.jsonValue := by
      rw [hname.canonical hjson, hjson]
      rfl
    rw [if_pos hjson, if_pos heq]
    rfl
  | known hjson hd =>
    rw [if_neg hjson, hd]
    dsimp only
    rw [if_pos rfl]
    rfl
  | new hjson hd =>
    rw [if_neg hjson, hd]
    rfl

/-- An alias is registered exactly when its name may be bound and its definition is new or known. -/
theorem register_iff {new : Bool} :
    register route name definition s = .ok new s' ↔
      Nameable s.reserved name definition ∧ Registered s name definition new s' :=
  ⟨registered_of_register, fun h => register_of_registered h.1 h.2⟩

/-! ### Checks one after another -/

/-- Checks types one after another, each at the end of its route. -/
def checkAll (scopes : List String) : List (Route × TypeExpr) → SessionM Unit
  | [] => pure ()
  | job :: rest => do
    check scopes job.1 job.2
    checkAll scopes rest

theorem checkAll_nil_iff : checkAll scopes [] s = .ok u s' ↔ s' = s := by
  rw [checkAll]
  exact pass_iff

/-- Jobs pass in order, each in the session that those before it leave. -/
theorem checkAll_cons_iff {job : Route × TypeExpr} {rest : List (Route × TypeExpr)} :
    checkAll scopes (job :: rest) s = .ok u s' ↔
      ∃ t, check scopes job.1 job.2 s = .ok () t ∧ checkAll scopes rest t = .ok u s' := by
  rw [checkAll, bind_run_eq_ok]
  exact ⟨fun ⟨_, t, h⟩ => ⟨t, h⟩, fun ⟨t, h⟩ => ⟨(), t, h⟩⟩

/-- If all jobs pass, each of them does so in some session. -/
theorem exists_check_of_checkAll {jobs : List (Route × TypeExpr)}
    (h : checkAll scopes jobs s = .ok u s') {job : Route × TypeExpr} (hj : job ∈ jobs) :
    ∃ t t', check scopes job.1 job.2 t = .ok () t' := by
  induction jobs generalizing s with
  | nil => cases hj
  | cons first rest ih =>
    obtain ⟨t, hcheck, hrest⟩ := checkAll_cons_iff.1 h
    rcases List.mem_cons.1 hj with rfl | hj
    · exact ⟨s, t, hcheck⟩
    · exact ih hrest hj

/-- The types of fields with their routes, as they are checked. -/
def fieldJobs (route : Route) (fields : List (String × TypeExpr)) : List (Route × TypeExpr) :=
  fields.map fun f => (route ++ [f.1], f.2.unmarked)

theorem fieldJobs_cons (f : String × TypeExpr) (rest : List (String × TypeExpr)) :
    fieldJobs route (f :: rest) = (route ++ [f.1], f.2.unmarked) :: fieldJobs route rest := rfl

/-- Tagged variants with their routes. -/
def variantJobs (route : Route) (variants : List TypeExpr) : List (Route × TypeExpr) :=
  variants.map fun v => (route ++ [(tag? v).getD ""], v)

theorem variantJobs_cons (v : TypeExpr) (rest : List TypeExpr) :
    variantJobs route (v :: rest) = (route ++ [(tag? v).getD ""], v) :: variantJobs route rest :=
  rfl

/-! ### Forms without names -/

theorem check_primitive_iff {kind : Primitive} :
    check scopes route (.primitive kind) s = .ok u s' ↔ s' = s :=
  pass_iff

theorem check_literal_iff {value : String} :
    check scopes route (.literal value) s = .ok u s' ↔ s' = s :=
  pass_iff

theorem check_optional_ne_ok : check scopes route (.optional e) s ≠ .ok u s' := refuse_run_ne_ok

/-- A reference passes exactly when its alias is open. -/
theorem check_reference_iff :
    check scopes route (.reference name) s = .ok u s' ↔ name ∈ scopes ∧ s' = s := by
  rw [check]
  split
  · next h =>
    rw [pass_iff]
    exact (and_iff_right h).symm
  · next h => exact ⟨fun hr => absurd hr refuse_run_ne_ok, fun hs => absurd hs.1 h⟩

/-! ### Records -/

theorem checkFields_cons {f : String × TypeExpr} {rest : List (String × TypeExpr)} :
    checkFields scopes route seen (f :: rest) =
      if f.1 = "" then refuse route .emptyFieldName
      else if f.1 ∈ seen then refuse route (.repeatedField f.1)
      else check scopes (route ++ [f.1]) f.2.unmarked >>= fun _ =>
        checkFields scopes route (f.1 :: seen) rest := by
  obtain ⟨name, e⟩ := f
  cases e <;> rfl

/-- The fields of a record pass when their names are proper and their types pass, in order. -/
theorem checkFields_iff {fields : List (String × TypeExpr)} :
    checkFields scopes route seen fields s = .ok u s' ↔
      "" ∉ fields.map (·.1) ∧ Fresh seen (fields.map (·.1)) ∧
        checkAll scopes (fieldJobs route fields) s = .ok u s' := by
  -- Names and types are judged field by field, so a type may fail before a later name is seen;
  -- whether everything passes does not depend on that order.
  induction fields generalizing seen s with
  | nil => exact ⟨fun h => ⟨List.not_mem_nil, fresh_nil, h⟩, fun h => h.2.2⟩
  | cons f rest ih =>
    rw [checkFields_cons, fieldJobs_cons, checkAll_cons_iff, List.map_cons, fresh_cons,
      List.mem_cons, not_or]
    constructor
    · intro h
      split at h
      · exact absurd h refuse_run_ne_ok
      next hempty =>
      split at h
      · exact absurd h refuse_run_ne_ok
      next hseen =>
      obtain ⟨_, t, hcheck, h⟩ := bind_run_eq_ok.1 h
      obtain ⟨hnamed, hfresh, hall⟩ := ih.1 h
      exact ⟨⟨Ne.symm hempty, hnamed⟩, ⟨hseen, hfresh⟩, t, hcheck, hall⟩
    · rintro ⟨⟨hempty, hnamed⟩, ⟨hseen, hfresh⟩, t, hcheck, hall⟩
      rw [if_neg (Ne.symm hempty), if_neg hseen, bind_run_eq_ok]
      exact ⟨(), t, hcheck, ih.2 ⟨hnamed, hfresh, hall⟩⟩

/-- The check of fields with proper names is that of their types. -/
theorem checkFields_eq {fields : List (String × TypeExpr)} (hnamed : "" ∉ fields.map (·.1))
    (hfresh : Fresh seen (fields.map (·.1))) :
    checkFields scopes route seen fields = checkAll scopes (fieldJobs route fields) := by
  induction fields generalizing seen with
  | nil => rfl
  | cons f rest ih =>
    rw [List.map_cons, List.mem_cons, not_or] at hnamed
    rw [List.map_cons, fresh_cons] at hfresh
    rw [checkFields_cons, if_neg (Ne.symm hnamed.1), if_neg hfresh.1, ih hnamed.2 hfresh.2]
    rfl

/-- The check of a record with proper names is that of the types of its fields. -/
theorem check_record_eq {fields : List (String × TypeExpr)} (h : WellShaped (.record fields)) :
    check scopes route (.record fields) = checkAll scopes (fieldJobs route fields) := by
  obtain ⟨hnamed, hnodup⟩ := wellShaped_record.1 h
  exact checkFields_eq hnamed (fresh_nil_left.2 hnodup)

/-- A record passes when its fields have proper names and their types pass in order. -/
theorem check_record_iff {fields : List (String × TypeExpr)} :
    check scopes route (.record fields) s = .ok u s' ↔
      WellShaped (.record fields) ∧ checkAll scopes (fieldJobs route fields) s = .ok u s' := by
  show checkFields scopes route [] fields s = _ ↔ _
  rw [checkFields_iff, wellShaped_record, fresh_nil_left, ← and_assoc]
  rfl

/-! ### Unions -/

/-- A union is an enumeration when all its variants are literals. -/
theorem literals?_eq_some {variants : List TypeExpr} {values : List String} :
    literals? variants = some values ↔ variants = values.map .literal := by
  unfold literals?
  -- `values` varies with the list: its first value is the first variant's.
  induction variants generalizing values with
  | nil => cases values <;> simp
  | cons v rest ih =>
    rw [List.mapM_cons]
    cases v with
    | literal value =>
      cases values with
      | nil => cases h : rest.mapM (·.literal?) <;> simp [literal?]
      | cons first values =>
        rw [List.map_cons, List.cons.injEq, TypeExpr.literal.injEq, ← ih]
        cases h : rest.mapM (·.literal?) <;> simp [literal?]
    | _ => cases values <;> simp [literal?]

theorem literals?_eq_none {variants : List TypeExpr} (h : literals? variants = none) :
    ¬ Distinct (variants.map literal?) := by
  unfold literals? at h
  induction variants with
  | nil => cases h
  | cons v rest ih =>
    rw [List.mapM_cons] at h
    cases v with
    | literal value =>
      intro hd
      refine ih ?_ ⟨fun hmem => hd.1 (List.mem_cons_of_mem _ hmem), (List.nodup_cons.1 hd.2).2⟩
      cases hr : rest.mapM (·.literal?) with
      | none => rfl
      | some values => rw [hr] at h; cases h
    | _ => exact not_distinct_none_cons

/-- The literals of an enumeration pass when none repeats. -/
theorem checkLiterals_iff {values : List String} :
    checkLiterals route seen values s = .ok u s' ↔ Fresh seen values ∧ s' = s := by
  induction values generalizing seen with
  | nil =>
    rw [checkLiterals, pass_iff]
    exact (and_iff_right fresh_nil).symm
  | cons value rest ih =>
    rw [checkLiterals, fresh_cons, and_assoc, ← ih]
    split
    · next hseen =>
      exact ⟨fun h => absurd h refuse_run_ne_ok, fun h => absurd hseen h.1⟩
    · next hseen => exact (and_iff_right hseen).symm

/-- The variants of a union pass when their tags are there and differ, and their records pass, in
order. -/
theorem checkVariants_iff {index : Nat} {variants : List TypeExpr} :
    checkVariants scopes route seen index variants s = .ok u s' ↔
      none ∉ variants.map tag? ∧ Fresh (seen.map some) (variants.map tag?) ∧
        checkAll scopes (variantJobs route variants) s = .ok u s' := by
  induction variants generalizing seen index s with
  | nil => exact ⟨fun h => ⟨List.not_mem_nil, fresh_nil, h⟩, fun h => h.2.2⟩
  | cons v rest ih =>
    rw [checkVariants, variantJobs_cons, checkAll_cons_iff, List.map_cons]
    cases htag : tag? v with
    | none =>
      dsimp only
      exact ⟨fun h => absurd h refuse_run_ne_ok, fun h => absurd List.mem_cons_self h.1⟩
    | some tag =>
      have hmem : some tag ∈ seen.map some ↔ tag ∈ seen := by simp
      rw [fresh_cons, hmem, List.mem_cons, not_or]
      dsimp only
      constructor
      · intro h
        split at h
        · exact absurd h refuse_run_ne_ok
        next hseen =>
        obtain ⟨_, t, hcheck, h⟩ := bind_run_eq_ok.1 h
        obtain ⟨htags, hfresh, hall⟩ := ih.1 h
        exact ⟨⟨nofun, htags⟩, ⟨hseen, hfresh⟩, t, hcheck, hall⟩
      · rintro ⟨⟨-, htags⟩, ⟨hseen, hfresh⟩, t, hcheck, hall⟩
        rw [if_neg hseen, bind_run_eq_ok]
        exact ⟨(), t, hcheck, ih.2 ⟨htags, hfresh, hall⟩⟩

theorem isSome_fields?_of_distinct {variants : List TypeExpr}
    (h : Distinct (variants.map tag?)) : (variants.all fun v => v.fields?.isSome) = true := by
  rw [List.all_eq_true]
  intro v hv
  cases v with
  | record fields => rfl
  | _ => exact absurd (List.mem_map.2 ⟨_, hv, rfl⟩) h.1

/-- Literals as jobs pass in any session and leave it as it is. -/
theorem checkAll_literals_iff {values : List String} :
    checkAll scopes (variantJobs route (values.map .literal)) s = .ok u s' ↔ s' = s := by
  induction values generalizing s with
  | nil => exact checkAll_nil_iff
  | cons value rest ih =>
    rw [List.map_cons, variantJobs_cons, checkAll_cons_iff]
    simp only [check_literal_iff, ih]
    simp

theorem wellShaped_enumeration {values : List String} :
    WellShaped (.union (values.map .literal)) ↔ values.Nodup := by
  have hmap : (values.map TypeExpr.literal).map literal? = values.map some := by
    rw [List.map_map]
    rfl
  rw [wellShaped_union, hmap]
  have hnodup : (values.map some).Nodup ↔ values.Nodup := by
    unfold List.Nodup
    rw [List.pairwise_map]
    simp
  constructor
  · rintro (h | h)
    · exact hnodup.1 h.2
    · cases values with
      | nil => exact List.nodup_nil
      | cons value rest => exact absurd h not_distinct_none_cons
  · intro h
    exact .inl ⟨by simp, hnodup.2 h⟩

/-- The check of variants with different tags is that of the variants. -/
theorem checkVariants_eq {index : Nat} {variants : List TypeExpr}
    (htags : none ∉ variants.map tag?) (hfresh : Fresh (seen.map some) (variants.map tag?)) :
    checkVariants scopes route seen index variants =
      checkAll scopes (variantJobs route variants) := by
  -- The tags that were seen grow with each variant; freshness against them is the invariant.
  induction variants generalizing seen index with
  | nil => rfl
  | cons v rest ih =>
    rw [List.map_cons, List.mem_cons, not_or] at htags
    rw [List.map_cons, fresh_cons] at hfresh
    rw [checkVariants, variantJobs_cons, checkAll]
    cases htag : tag? v with
    | none => exact absurd htag.symm htags.1
    | some tag =>
      rw [htag] at hfresh
      have hseen : tag ∉ seen := fun hmem => hfresh.1 (List.mem_map_of_mem hmem)
      have hrest : Fresh ((tag :: seen).map some) (rest.map tag?) := hfresh.2
      dsimp only
      rw [if_neg hseen, ih htags.2 hrest]
      rfl

/-- The check of a union whose variants are told apart is that of the variants. -/
theorem check_union_eq {variants : List TypeExpr} (h : WellShaped (.union variants)) :
    check scopes route (.union variants) = checkAll scopes (variantJobs route variants) := by
  rw [check]
  cases hliterals : literals? variants with
  | some values =>
    -- Literals have no checks of their own, so both sides leave every session as it is.
    obtain rfl := literals?_eq_some.1 hliterals
    dsimp only
    funext s
    have hall : checkAll scopes (variantJobs route (values.map .literal)) s = .ok () s :=
      checkAll_literals_iff.2 rfl
    rw [hall]
    exact checkLiterals_iff.2 ⟨fresh_nil_left.2 (wellShaped_enumeration.1 h), rfl⟩
  | none =>
    obtain ⟨htags, hnodup⟩ :=
      (wellShaped_union.1 h).resolve_left (literals?_eq_none hliterals)
    dsimp only
    rw [if_pos (isSome_fields?_of_distinct ⟨htags, hnodup⟩)]
    exact checkVariants_eq htags (fresh_nil_left.2 hnodup)

/-- A union passes when its variants are told apart and pass in order. -/
theorem check_union_iff {variants : List TypeExpr} :
    check scopes route (.union variants) s = .ok u s' ↔
      WellShaped (.union variants) ∧ checkAll scopes (variantJobs route variants) s = .ok u s' := by
  rw [check]
  cases hliterals : literals? variants with
  | some values =>
    obtain rfl := literals?_eq_some.1 hliterals
    dsimp only
    rw [checkLiterals_iff, wellShaped_enumeration, checkAll_literals_iff, fresh_nil_left]
  | none =>
    -- Some variant is no literal, so the variants can only be told apart by their tags.
    rw [wellShaped_union, or_iff_right (literals?_eq_none hliterals)]
    dsimp only
    constructor
    · intro h
      split at h
      · obtain ⟨htags, hfresh, hall⟩ := checkVariants_iff.1 h
        exact ⟨⟨htags, fresh_nil_left.1 hfresh⟩, hall⟩
      · exact absurd h refuse_run_ne_ok
    · rintro ⟨hdistinct, hall⟩
      rw [if_pos (isSome_fields?_of_distinct hdistinct), checkVariants_iff]
      exact ⟨hdistinct.1, fresh_nil_left.2 hdistinct.2, hall⟩

/-! ### Aliases -/

/-- A known alias passes; for a new one a place is opened, its definition is checked inside its own
scope, and the place is filled. -/
theorem check_alias_iff :
    check scopes route (.alias name definition) s = .ok u s' ↔
      ∃ new t, register route name definition s = .ok new t ∧
        if (new && decide (name ∉ scopes)) = true then
          ∃ t', check (name :: scopes) (route ++ [name]) definition (t.openPlace name) = .ok () t' ∧
            s' = t'.fillPlace name (definition.declarationText name)
        else s' = t := by
  rw [check, bind_run_eq_ok]
  refine exists_congr fun new => exists_congr fun t => and_congr_right fun _ => ?_
  split
  · rw [bind_run_eq_ok]
    constructor
    · rintro ⟨_, _, hopen, h⟩
      obtain rfl := modify_run_eq_ok.1 hopen
      obtain ⟨_, t', hcheck, hfill⟩ := bind_run_eq_ok.1 h
      exact ⟨t', hcheck, (modify_run_eq_ok.1 hfill).symm⟩
    · rintro ⟨t', hcheck, rfl⟩
      refine ⟨(), _, modify_run_eq_ok.2 rfl, bind_run_eq_ok.2 ⟨(), t', hcheck, ?_⟩⟩
      exact modify_run_eq_ok.2 rfl
  · exact pass_iff

/-! ### Declarations -/

/-- A declaration registers the alias, gives up its place, and checks its definition. -/
theorem declare_iff {text : String} (hjson : name ≠ jsonValueName) :
    declare name definition route s = .ok text s' ↔
      text = definition.declarationText name ∧ Nameable s.reserved name definition ∧
        ∃ new t, Registered s name definition new t ∧
          check [name] (route ++ [name]) definition (t.closePlace name) = .ok () s' := by
  rw [declare, bind_run_eq_ok]
  simp only [register_iff, if_neg hjson]
  constructor
  · rintro ⟨new, t, ⟨hname, hregistered⟩, h⟩
    obtain ⟨_, _, hclose, h⟩ := bind_run_eq_ok.1 h
    obtain rfl := modify_run_eq_ok.1 hclose
    obtain ⟨_, _, hcheck, htext⟩ := bind_run_eq_ok.1 h
    obtain ⟨rfl, rfl⟩ := pure_run_eq_ok.1 htext
    exact ⟨rfl, hname, new, t, hregistered, hcheck⟩
  · rintro ⟨rfl, hname, new, t, hregistered, hcheck⟩
    refine ⟨new, t, ⟨hname, hregistered⟩, bind_run_eq_ok.2 ?_⟩
    refine ⟨(), _, modify_run_eq_ok.2 rfl, bind_run_eq_ok.2 ⟨(), s', hcheck, ?_⟩⟩
    exact pure_run_eq_ok.2 ⟨rfl, rfl⟩

end BoundaryTypes.Session
