/-
  `Completeness` — a session refuses no type without a reason.

  Let the parts of a type be fit, and let no alias have two definitions in the relation
  `bound`. Then only a reference can stand in the way: one that the check finds in no
  alias of its name (`dangling`). The check ends with the first of them, and well if
  there is none (`check_judged`). What the session has met before does not matter, as
  long as it agrees with `bound` as well (`Agrees`): a definition that is known already
  is the same one, so the alias is no conflict, and its definition is passed over.

  A reference that an alias of its name encloses never dangles. So a type passes when its
  parts are fit and all its references are enclosed (`Admissible`, `check_complete`).
-/
import BoundaryTypes.Proofs.Session.Soundness

namespace BoundaryTypes

/-! ### References that no alias encloses -/

namespace TypeExpr

mutual

/-- The names of the references in a type that stand in no alias of their name. -/
def free : TypeExpr → List String
  | .primitive _ | .literal _ => []
  | .reference name => [name]
  | .listOf e | .dictOf e | .optional e => e.free
  | .alias name e => e.free.filter (· ≠ name)
  | .record fields => freeFields fields
  | .union variants => freeVariants variants

/-- The names of free references in the types of fields. -/
def freeFields : List (String × TypeExpr) → List String
  | [] => []
  | (_, e) :: rest => e.free ++ freeFields rest

/-- The names of free references in variants. -/
def freeVariants : List TypeExpr → List String
  | [] => []
  | e :: rest => e.free ++ freeVariants rest

end

theorem free_record (fields : List (String × TypeExpr)) :
    (record fields).free = fields.flatMap fun f => f.2.free := by
  show freeFields fields = _
  induction fields with
  | nil => rfl
  | cons f rest ih => rw [freeFields, ih, List.flatMap_cons]

theorem free_union (variants : List TypeExpr) : (union variants).free = variants.flatMap free := by
  show freeVariants variants = _
  induction variants with
  | nil => rfl
  | cons v rest ih => rw [freeVariants, ih, List.flatMap_cons]

theorem free_unmarked (e : TypeExpr) : e.unmarked.free = e.free := by
  cases e <;> rfl

/-! ### References that a visit finds in no alias -/

mutual

/-- The names of the references that a visit finds in no alias of their name, in order. The type
stands inside the aliases in `scopes`, and the visit passes over the definitions of aliases that it
has seen before. -/
def dangling (scopes seen : List String) : TypeExpr → List String
  | .primitive _ | .literal _ => []
  | .reference name => if name ∈ scopes then [] else [name]
  | .listOf e | .dictOf e | .optional e => e.dangling scopes seen
  | .alias name e =>
    if name ∈ seen then [] else e.dangling (name :: scopes) (name :: seen)
  | .record fields => danglingFields scopes seen fields
  | .union variants => danglingAll scopes seen variants

/-- The names of dangling references in the types of fields. -/
def danglingFields (scopes seen : List String) : List (String × TypeExpr) → List String
  | [] => []
  | (_, e) :: rest =>
    e.dangling scopes seen ++ danglingFields scopes (e.aliases.map (·.1) ++ seen) rest

/-- The names of dangling references in types that are visited one after another. -/
def danglingAll (scopes seen : List String) : List TypeExpr → List String
  | [] => []
  | e :: rest => e.dangling scopes seen ++ danglingAll scopes (e.aliases.map (·.1) ++ seen) rest

end

theorem dangling_unmarked (scopes seen : List String) (e : TypeExpr) :
    e.unmarked.dangling scopes seen = e.dangling scopes seen := by
  cases e <;> rfl

theorem dangling_record (scopes seen : List String) (fields : List (String × TypeExpr)) :
    (record fields).dangling scopes seen =
      danglingAll scopes seen (fields.map fun f => f.2.unmarked) := by
  show danglingFields scopes seen fields = _
  induction fields generalizing seen with
  | nil => rfl
  | cons f rest ih =>
    rw [danglingFields, ih, List.map_cons, danglingAll, dangling_unmarked, aliases_unmarked]

/-- A reference that dangles among types is free in one of them. -/
theorem mem_danglingAll {scopes seen : List String} {es : List TypeExpr} {n : String}
    (ih : ∀ e ∈ es, ∀ seen, n ∈ e.dangling scopes seen → n ∈ e.free ∧ n ∉ scopes)
    (h : n ∈ danglingAll scopes seen es) : n ∈ es.flatMap free ∧ n ∉ scopes := by
  induction es generalizing seen with
  | nil => exact absurd h List.not_mem_nil
  | cons e rest ihrest =>
    rw [List.forall_mem_cons] at ih
    rw [List.flatMap_cons, List.mem_append]
    rw [danglingAll, List.mem_append] at h
    rcases h with h | h
    · exact (ih.1 seen h).imp_left .inl
    · exact (ihrest ih.2 h).imp_left .inr

/-- A reference that dangles is free, and no alias around the type has its name. -/
theorem free_of_mem_dangling {scopes seen : List String} {e : TypeExpr} {n : String}
    (h : n ∈ e.dangling scopes seen) : n ∈ e.free ∧ n ∉ scopes := by
  -- By induction on the type: what the visit has seen only takes names away.
  induction e generalizing scopes seen with
  | primitive kind => exact absurd h List.not_mem_nil
  | literal value => exact absurd h List.not_mem_nil
  | reference name =>
    rw [dangling] at h
    split at h
    · exact absurd h List.not_mem_nil
    · next hscopes =>
      obtain rfl := List.mem_singleton.1 h
      exact ⟨List.mem_cons_self, hscopes⟩
  | listOf e ih => exact ih h
  | dictOf e ih => exact ih h
  | optional e ih => exact ih h
  | record fields ih =>
    rw [dangling_record] at h
    obtain ⟨hfree, hscopes⟩ := mem_danglingAll (List.forall_mem_map.2 fun f hf _ => (ih f hf).2) h
    rw [List.flatMap_map] at hfree
    simp only [free_unmarked] at hfree
    exact ⟨free_record fields ▸ hfree, hscopes⟩
  | union variants ih =>
    rw [free_union]
    exact mem_danglingAll (fun v hv _ => ih v hv) h
  | «alias» name definition ih =>
    rw [dangling] at h
    split at h
    · exact absurd h List.not_mem_nil
    · -- Inside, the alias is one of the scopes, so the name is another.
      obtain ⟨hfree, hscopes⟩ := ih h
      rw [List.mem_cons, not_or] at hscopes
      exact ⟨List.mem_filter.2 ⟨hfree, by simpa using hscopes.1⟩, hscopes.2⟩

theorem dangling_eq_nil {scopes seen : List String} {e : TypeExpr}
    (h : ∀ n ∈ e.free, n ∈ scopes) : e.dangling scopes seen = [] := by
  refine List.eq_nil_iff_forall_not_mem.2 fun n hn => ?_
  obtain ⟨hfree, hscopes⟩ := free_of_mem_dangling hn
  exact hscopes (h n hfree)

end TypeExpr

namespace Session

open Outcome TypeExpr

variable {s s' t : Session} {scopes seen reserved : List String} {name n : String} {route : Route}
  {definition e : TypeExpr} {bound : String → TypeExpr → Prop}

/-- What a type needs in order to pass. -/
structure Admissible (reserved : List String) (bound : String → TypeExpr → Prop)
    (scopes : List String) (e : TypeExpr) : Prop where
  fits : e.Everywhere (Fits reserved bound)
  unmarked : e.isOptional = false
  enclosed : ∀ n ∈ e.free, n ∈ scopes

/-- No name is bound to two types. -/
def Functional (bound : String → TypeExpr → Prop) : Prop :=
  ∀ n D D', bound n D → bound n D' → D = D'

/-- A settled session that knows no other definitions than those of `bound`. -/
structure Agrees (reserved : List String) (bound : String → TypeExpr → Prop)
    (scopes : List String) (size : Nat) (s : Session) : Prop where
  reserved : s.reserved = reserved
  knows : ∀ n D, s.Knows n D → bound n D
  settled : Settled scopes s
  sized : Scoped scopes size s

theorem Agrees.mono {size smaller : Nat} (h : Agrees reserved bound scopes size s)
    (hsize : smaller ≤ size) : Agrees reserved bound scopes smaller s :=
  ⟨h.reserved, h.knows, h.settled, h.sized.mono hsize (.refl s)⟩

/-- After an admissible type has passed, the session agrees still. -/
theorem Agrees.after {size : Nat} (h : Agrees reserved bound scopes size s)
    (hsize : e.size ≤ size) (he : e.Everywhere (Fits reserved bound))
    (hcheck : check scopes route e s = .ok () s') : Agrees reserved bound scopes size s' := by
  obtain ⟨hstate, -, -, hsettled⟩ :=
    check_sound e scopes route hcheck h.settled (h.sized.mono hsize (.refl s))
  have hkeeps : s.Keeps s' := hstate ▸ keeps_learn _
  refine ⟨hkeeps.reserved.trans h.reserved, ?_, hsettled, h.sized.mono (Nat.le_refl _) hkeeps⟩
  intro n D hD
  rw [hstate] at hD
  rcases knows_learn hD with hD | ⟨hjson, hmet⟩
  · exact h.knows n D hD
  · exact (he _ (mem_aliases.1 hmet)).bound n D rfl hjson

/-- The type of a field fits without the mark of its key, and bears no second mark. -/
theorem everywhere_fits_unmarked (h : e.Everywhere (Fits reserved bound)) :
    e.unmarked.Everywhere (Fits reserved bound) ∧ e.unmarked.isOptional = false := by
  cases e with
  | optional inner =>
    obtain ⟨hself, hinside⟩ := everywhere_optional.1 h
    exact ⟨hinside, wellShaped_optional.1 hself.shape⟩
  | _ => exact ⟨h, rfl⟩

/-- An alias can be registered when its name is known with no other definition. -/
theorem exists_registered (hs : name ≠ jsonValueName → ∀ D, s.Knows name D → D = definition) :
    ∃ new t, Registered s name definition new t := by
  by_cases hjson : name = jsonValueName
  · exact ⟨_, _, .json hjson⟩
  · cases hd : s.definition? name with
    | none => exact ⟨_, _, .new hjson hd⟩
    | some D =>
      obtain rfl := hs hjson D hd
      exact ⟨_, _, .known hjson hd⟩

/-- A session agrees when it has registered what is bound. -/
theorem knows_bound_of_registered {new : Bool} (hs : ∀ n D, s.Knows n D → bound n D)
    (hbound : bound name definition) (h : Registered s name definition new t) :
    ∀ n D, t.Knows n D → bound n D := by
  intro n D hD
  rcases h.knows_or hD with hD | heq
  · exact hs n D hD
  · obtain ⟨rfl, rfl⟩ := Prod.mk.inj heq
    exact hbound

theorem Agrees.enter (h : Agrees reserved bound scopes (TypeExpr.alias name definition).size s)
    (hjson : name ≠ jsonValueName) (hnew : s.definition? name = none)
    (hbound : bound name definition) :
    Agrees reserved bound (name :: scopes) definition.size (s.enter name definition) := by
  have hknows := knows_bound_of_registered h.knows hbound (.new hjson hnew)
  exact ⟨h.reserved, hknows, h.settled.enter hnew, h.sized.enter hnew⟩

/-! ### What a check comes to -/

/-- A session has registered the names in `seen` and no others. That of arbitrary JSON is never
registered. -/
def HasMet (seen : List String) (s : Session) : Prop :=
  ∀ n, n ≠ jsonValueName → (n ∈ seen ↔ (s.definition? n).isSome = true)

/-- A check ends with the first reference that dangles, and well if there is none. -/
def Verdict (dangling : List String) (result : EStateM.Result TypeFault Session Unit) : Prop :=
  match dangling with
  | [] => ∃ s, result = .ok () s
  | n :: _ => ∃ route s, result = .error ⟨.unresolved n, route⟩ s

/-- In every session that agrees, a check of the type comes to its verdict. -/
def Judged (reserved : List String) (bound : String → TypeExpr → Prop) (scopes : List String)
    (e : TypeExpr) : Prop :=
  ∀ (route : Route) {s : Session} {seen : List String}, Agrees reserved bound scopes e.size s →
    HasMet seen s → Verdict (e.dangling scopes seen) (check scopes route e s)

theorem hasMet_empty (reserved : List String) : HasMet [] (empty reserved) := by
  intro n _
  exact ⟨fun h => absurd h List.not_mem_nil, fun h => by cases h⟩

theorem isSome_definition?_define :
    ((s.define name definition).definition? n).isSome = true ↔
      n = name ∨ (s.definition? n).isSome = true := by
  rw [definition?_define]
  split
  · next heq => simp [heq]
  · next hne => simp [hne]

/-- A new alias counts as met. -/
theorem HasMet.enter (h : HasMet seen s) : HasMet (name :: seen) (s.enter name definition) := by
  intro n hjson
  have hdefined : ((s.enter name definition).definition? n).isSome = true ↔ _ :=
    isSome_definition?_define
  rw [hdefined, List.mem_cons, h n hjson]

theorem HasMet.meet (h : HasMet seen s) (a : String × TypeExpr) :
    HasMet (a.1 :: seen) (s.meet a) := by
  intro n hjson
  rw [List.mem_cons, h n hjson]
  by_cases ha : s.Settles a.1
  · -- An alias that is settled is met already, so its name adds nothing.
    rw [meet_of_settles ha, or_iff_right_of_imp]
    rintro rfl
    exact ha.resolve_left hjson
  · rw [meet_of_not_settles ha]
    exact isSome_definition?_define.symm

/-- Aliases that are learned count as met. -/
theorem HasMet.learn {met : List (String × TypeExpr)} (h : HasMet seen s) :
    HasMet (met.map (·.1) ++ seen) (s.learn met) := by
  induction met generalizing s seen with
  | nil => exact h
  | cons a met ih =>
    intro n hjson
    rw [learn_cons, ← ih (h.meet a) n hjson]
    rw [List.map_cons, List.mem_append, List.mem_append, List.mem_cons, List.mem_cons, or_assoc,
      or_left_comm]

/-- Of types that are checked one after another, the first dangling reference counts. -/
theorem verdict_checkAll {jobs : List (Route × TypeExpr)} {size : Nat}
    (ih : ∀ job ∈ jobs, Judged reserved bound scopes job.2 ∧ job.2.size ≤ size ∧
      job.2.Everywhere (Fits reserved bound))
    (hs : Agrees reserved bound scopes size s) (hseen : HasMet seen s) :
    Verdict (danglingAll scopes seen (jobs.map (·.2))) (checkAll scopes jobs s) := by
  -- What was met grows with each type that passes, in the session and in the list alike.
  induction jobs generalizing s seen with
  | nil => exact ⟨s, rfl⟩
  | cons job rest ihrest =>
    rw [List.forall_mem_cons] at ih
    obtain ⟨⟨hjudged, hsize, hfits⟩, hrest⟩ := ih
    have hverdict := hjudged job.1 (hs.mono hsize) hseen
    rw [List.map_cons, danglingAll, checkAll]
    cases hdangling : job.2.dangling scopes seen with
    | nil =>
      rw [hdangling] at hverdict
      obtain ⟨t, ht⟩ := hverdict
      -- Without a dangling reference the first type passes, and the session has learned its
      -- aliases.
      have hstate := (check_sound job.2 scopes job.1 ht hs.settled
        (hs.sized.mono hsize (.refl s))).state
      rw [bind_run_of_ok _ ht, List.nil_append]
      exact ihrest hrest (hs.after hsize hfits ht) (hstate ▸ hseen.learn)
    | cons n others =>
      rw [hdangling] at hverdict
      obtain ⟨route, t, ht⟩ := hverdict
      rw [bind_run_of_error _ ht]
      exact ⟨route, t, rfl⟩

/-- The check of a new alias is that of its definition, in a place of its own. -/
theorem check_alias_of_new (hname : Nameable s.reserved name definition)
    (hjson : name ≠ jsonValueName) (hnew : s.definition? name = none) (hscopes : name ∉ scopes) :
    check scopes route (.alias name definition) s =
      (check (name :: scopes) (route ++ [name]) definition >>= fun _ =>
        modify (·.fillPlace name (definition.declarationText name))) (s.enter name definition) := by
  rw [check, bind_run_of_ok _ (register_iff.2 ⟨hname, .new hjson hnew⟩)]
  rw [if_pos (by simp [hscopes])]
  rfl

/-- The check of an alias that needs no registration ends at once. -/
theorem check_alias_of_registered (hname : Nameable s.reserved name definition)
    (h : Registered s name definition false t) :
    check scopes route (.alias name definition) s = .ok () t := by
  rw [check, bind_run_of_ok _ (register_iff.2 ⟨hname, h⟩)]
  rfl

theorem judged_alias (hfunctional : Functional bound)
    (ih : ∀ scopes, Judged reserved bound scopes definition)
    (h : (TypeExpr.alias name definition).Everywhere (Fits reserved bound)) :
    Judged reserved bound scopes (.alias name definition) := by
  intro route s seen hs hseen
  obtain ⟨hself, -⟩ := everywhere_alias.1 h
  have hname := hs.reserved ▸ hself.nameable name definition rfl
  have hknown : name ≠ jsonValueName → ∀ D, s.Knows name D → D = definition := by
    intro hjson D hD
    exact hfunctional name D definition (hs.knows name D hD) (hself.bound name definition rfl hjson)
  obtain ⟨new, t, hregistered⟩ := exists_registered hknown
  rw [dangling]
  cases hregistered with
  | json hjson =>
    -- The only definition that this name may have refers to itself, so nothing dangles.
    obtain rfl := hname.canonical hjson
    have hnone : (if name ∈ seen then [] else
        (TypeExpr.reference jsonValueName).dangling (name :: scopes) (name :: seen)) = [] := by
      split
      · rfl
      · exact if_pos (hjson ▸ List.mem_cons_self)
    rw [hnone]
    exact ⟨s, check_alias_of_registered hname (.json hjson)⟩
  | known hjson hd =>
    -- Known before, so the visit passes over the definition as well.
    have hmem : name ∈ seen := (hseen name hjson).2 (by rw [hd]; rfl)
    rw [if_pos hmem]
    exact ⟨s, check_alias_of_registered hname (.known hjson hd)⟩
  | new hjson hd =>
    -- New to the session and to the visit: both go inside, in a scope of its own.
    have hmem : name ∉ seen := by
      intro hmem
      have hsome := (hseen name hjson).1 hmem
      rw [hd] at hsome
      cases hsome
    have hbound := hself.bound name definition rfl hjson
    have hinside := ih (name :: scopes) (route ++ [name]) (hs.enter hjson hd hbound) hseen.enter
    rw [if_neg hmem, check_alias_of_new hname hjson hd (hs.sized.not_mem hd)]
    cases hdangling : definition.dangling (name :: scopes) (name :: seen) with
    | nil =>
      rw [hdangling] at hinside
      obtain ⟨t, ht⟩ := hinside
      rw [bind_run_of_ok _ ht]
      exact ⟨_, rfl⟩
    | cons n others =>
      rw [hdangling] at hinside
      obtain ⟨r, t, ht⟩ := hinside
      rw [bind_run_of_error _ ht]
      exact ⟨r, t, rfl⟩

theorem judged_record {fields : List (String × TypeExpr)}
    (ih : ∀ f ∈ fields, f.2.unmarked.Everywhere (Fits reserved bound) →
      f.2.unmarked.isOptional = false → Judged reserved bound scopes f.2.unmarked)
    (h : (record fields).Everywhere (Fits reserved bound)) :
    Judged reserved bound scopes (.record fields) := by
  intro route s seen hs hseen
  obtain ⟨hself, hinside⟩ := everywhere_record.1 h
  have hjobs : ∀ job ∈ fieldJobs route fields, Judged reserved bound scopes job.2 ∧
      job.2.size ≤ (record fields).size ∧ job.2.Everywhere (Fits reserved bound) := by
    refine List.forall_mem_map.2 fun f hf => ?_
    -- The mark of a key is taken off before the type of the field is checked.
    obtain ⟨hfits, hoptional⟩ := everywhere_fits_unmarked (hinside f hf)
    exact ⟨ih f hf hfits hoptional, size_unmarked_le_record hf, hfits⟩
  have hall := verdict_checkAll hjobs hs hseen
  rw [fieldJobs, List.map_map] at hall
  rw [check_record_eq hself.shape, dangling_record]
  exact hall

theorem judged_union {variants : List TypeExpr}
    (ih : ∀ v ∈ variants, v.Everywhere (Fits reserved bound) → v.isOptional = false →
      Judged reserved bound scopes v)
    (h : (union variants).Everywhere (Fits reserved bound)) :
    Judged reserved bound scopes (.union variants) := by
  intro route s seen hs hseen
  obtain ⟨hself, hinside⟩ := everywhere_union.1 h
  have hjobs : ∀ job ∈ variantJobs route variants, Judged reserved bound scopes job.2 ∧
      job.2.size ≤ (union variants).size ∧ job.2.Everywhere (Fits reserved bound) := by
    refine List.forall_mem_map.2 fun v hv => ?_
    -- A variant is a record or a literal, so no mark stands in its way.
    have hvariant := isVariant_of_mem (wellShaped_union.1 hself.shape) hv
    have hjudged := ih v hv (hinside v hv) (isOptional_eq_false_of_isVariant hvariant)
    exact ⟨hjudged, Nat.le_of_lt (size_lt_of_mem_children hv), hinside v hv⟩
  have hall := verdict_checkAll hjobs hs hseen
  have htypes : (variantJobs route variants).map (·.2) = variants := by
    rw [variantJobs, List.map_map]
    exact List.map_id variants
  rw [htypes] at hall
  rw [check_union_eq hself.shape]
  exact hall

/-- A check of a type whose parts are fit comes to its verdict. -/
theorem check_judged (hfunctional : Functional bound) (e : TypeExpr) (scopes : List String)
    (hfits : e.Everywhere (Fits reserved bound)) (hoptional : e.isOptional = false) :
    Judged reserved bound scopes e := by
  induction e generalizing scopes with
  | primitive kind => exact fun _ s _ _ _ => ⟨s, rfl⟩
  | literal value => exact fun _ s _ _ _ => ⟨s, rfl⟩
  | reference name =>
    intro route s seen _ _
    rw [check, dangling]
    split
    · exact ⟨s, rfl⟩
    · exact ⟨route, s, rfl⟩
  | optional e ih => cases hoptional
  | listOf e ih =>
    intro route s seen hs hseen
    obtain ⟨hself, hinside⟩ := everywhere_listOf.1 hfits
    exact ih scopes hinside (wellShaped_listOf.1 hself.shape) (route ++ [listStep])
      (hs.mono (Nat.le_succ _)) hseen
  | dictOf e ih =>
    intro route s seen hs hseen
    obtain ⟨hself, hinside⟩ := everywhere_dictOf.1 hfits
    exact ih scopes hinside (wellShaped_dictOf.1 hself.shape) (route ++ [dictStep])
      (hs.mono (Nat.le_succ _)) hseen
  | record fields ih => exact judged_record (fun f hf => (ih f hf).2 scopes) hfits
  | union variants ih => exact judged_union (fun v hv => ih v hv scopes) hfits
  | «alias» name definition ih =>
    obtain ⟨hself, hinside⟩ := everywhere_alias.1 hfits
    exact judged_alias hfunctional
      (fun scopes => ih scopes hinside (wellShaped_alias.1 hself.shape)) hfits

/-! ### Types that pass -/

/-- A type passes in every session that agrees. -/
def Passes (reserved : List String) (bound : String → TypeExpr → Prop) (scopes : List String)
    (e : TypeExpr) : Prop :=
  ∀ (route : Route) {s : Session}, Agrees reserved bound scopes e.size s →
    ∃ s', check scopes route e s = .ok () s'

/-- An admissible type passes. -/
theorem check_complete (hfunctional : Functional bound) (e : TypeExpr) (scopes : List String)
    (h : Admissible reserved bound scopes e) : Passes reserved bound scopes e := by
  intro route s hs
  -- What the session knows is what a visit would have seen.
  have hseen : HasMet (s.definitions.map (·.1)) s := by
    intro n _
    rw [definition?, Option.isSome_map, List.find?_isSome, List.mem_map]
    simp
  have hverdict := check_judged hfunctional e scopes h.fits h.unmarked route hs hseen
  rw [dangling_eq_nil h.enclosed] at hverdict
  exact hverdict

/-- An admissible definition can be declared under a name of its own. -/
theorem declare_complete (route : Route) (hfunctional : Functional bound)
    (hjson : name ≠ jsonValueName) (hname : Nameable reserved name definition)
    (hbound : bound name definition) (h : Admissible reserved bound [name] definition)
    (hs : Agrees reserved bound [] 0 s) :
    ∃ text s', declare name definition route s = .ok text s' := by
  have hknown : name ≠ jsonValueName → ∀ D, s.Knows name D → D = definition :=
    fun _ D hD => hfunctional name D definition (hs.knows name D hD) hbound
  obtain ⟨new, t, hregistered⟩ := exists_registered hknown
  have hknows : (t.closePlace name).Knows name definition := hregistered.knows hjson
  -- The place is given up before the definition is checked, in the scope of its own name.
  have hagrees : Agrees reserved bound [name] definition.size (t.closePlace name) := by
    have hagree := knows_bound_of_registered hs.knows hbound hregistered
    refine ⟨?_, hagree, (hregistered.settled hs.settled).closePlace, ?_⟩
    · exact hregistered.keeps.reserved.trans hs.reserved
    · intro n hn
      obtain rfl := List.mem_singleton.1 hn
      exact ⟨definition, hknows, Nat.le_refl _⟩
  obtain ⟨s', hcheck⟩ :=
    check_complete hfunctional definition [name] h (route ++ [name]) hagrees
  exact ⟨_, s', (declare_iff hjson).2 ⟨rfl, hs.reserved ▸ hname, new, t, hregistered, hcheck⟩⟩

end Session

end BoundaryTypes
