/-
  `Soundness` — what a check that ends well has established.

  The invariant is `Settled`: of every alias that the session knows, except those
  whose definitions are just being checked, all parts are fit and known themselves. So
  an alias that is met again needs no second check. The definitions that are being
  checked are larger than what is left of them to check (`Scoped`), hence none of them
  is met again inside itself under its own definition.

  A check that ends well has met all aliases of the type and done nothing else
  (`check_sound`). The same holds for a declaration (`declare_sound`).
-/
import BoundaryTypes.Proofs.Session.Learning

namespace BoundaryTypes.Session

open Outcome TypeExpr

variable {s s' t : Session} {scopes : List String} {name text : String}
  {route : Route} {definition e : TypeExpr} {u : Unit}

/-! ### Known types -/

/-- What is asked of a part of a type when `bound` tells which aliases have which definition. -/
structure Fits (reserved : List String) (bound : String → TypeExpr → Prop) (p : TypeExpr) :
    Prop where
  shape : p.WellShaped
  nameable : ∀ n D, p = .alias n D → Nameable reserved n D
  bound : ∀ n D, p = .alias n D → n ≠ jsonValueName → bound n D

/-- A reference refers to a known alias or to the type of arbitrary JSON. -/
def Resolved (s : Session) (p : TypeExpr) : Prop := ∀ n, p = .reference n → s.Settles n

/-- All parts of a type are fit, and its aliases are known. -/
def Known (s : Session) (e : TypeExpr) : Prop :=
  e.Everywhere fun p => Fits s.reserved s.Knows p ∧ s.Resolved p

theorem Known.mono (h : s.Keeps t) (he : s.Known e) : t.Known e := by
  refine he.imp fun p hp => ⟨⟨hp.1.shape, ?_, ?_⟩, fun n hn => h.settles (hp.2 n hn)⟩
  · rw [h.reserved]
    exact hp.1.nameable
  · exact fun n D hpart hjson => h.knows n D (hp.1.bound n D hpart hjson)

/-- A part that is neither an alias nor a reference is fit when it is well shaped. -/
theorem fits_of_wellShaped {p : TypeExpr} (hp : p.WellShaped) (hname : p.mentioned? = none) :
    Fits s.reserved s.Knows p ∧ s.Resolved p := by
  refine ⟨⟨hp, ?_, ?_⟩, ?_⟩
  · rintro n D rfl; cases hname
  · rintro n D rfl; cases hname
  · rintro n rfl; cases hname

theorem known_reference (h : s.Settles name) : s.Known (.reference name) := by
  refine everywhere_reference.2 ⟨⟨wellShaped_reference name, ?_, ?_⟩, ?_⟩
  · rintro n D ⟨⟩
  · rintro n D ⟨⟩
  · rintro n ⟨⟩; exact h

theorem known_alias (hname : Nameable s.reserved name definition)
    (hknows : name ≠ jsonValueName → s.Knows name definition)
    (hoptional : definition.isOptional = false) (h : s.Known definition) :
    s.Known (.alias name definition) := by
  refine everywhere_alias.2 ⟨⟨⟨wellShaped_alias.2 hoptional, ?_, ?_⟩, ?_⟩, h⟩
  · rintro n D ⟨⟩; exact hname
  · rintro n D ⟨⟩; exact hknows
  · rintro n ⟨⟩

/-- The type of a field is known when it is known without the mark of its key. -/
theorem known_of_unmarked (hoptional : e.unmarked.isOptional = false) (h : s.Known e.unmarked) :
    s.Known e := by
  cases e with
  | optional inner =>
    exact everywhere_optional.2 ⟨fits_of_wellShaped (wellShaped_optional.2 hoptional) rfl, h⟩
  | _ => exact h

/-- All aliases of a known type are known. -/
theorem Known.settles (h : s.Known e) : ∀ a ∈ e.aliases, s.Settles a.1 := by
  rintro ⟨n, D⟩ ha
  by_cases hjson : n = jsonValueName
  · exact .inl hjson
  · exact settles_of_knows ((h _ (mem_aliases.1 ha)).1.bound n D rfl hjson)

/-- What is known is learned without a change. -/
theorem Known.learn_eq (h : s.Known e) : s.learn e.aliases = s := learn_of_settles h.settles

/-! ### The invariant -/

/-- Known aliases, except those in `scopes`, have known definitions. -/
structure Settled (scopes : List String) (s : Session) : Prop where
  known : ∀ n D, s.Knows n D → n ∉ scopes → s.Known (.alias n D)
  placed : ∀ n ∈ s.hoisted.map (·.1), (s.definition? n).isSome = true

/-- The aliases in `scopes` are known, with definitions of at least the given size. -/
def Scoped (scopes : List String) (size : Nat) (s : Session) : Prop :=
  ∀ n ∈ scopes, ∃ D, s.Knows n D ∧ size ≤ D.size

/-- What is enough for a larger type, or in a smaller session, is enough. -/
theorem Scoped.mono {size smaller : Nat} (h : Scoped scopes size s) (hsize : smaller ≤ size)
    (hst : s.Keeps t) : Scoped scopes smaller t := by
  intro n hn
  obtain ⟨D, hD, hle⟩ := h n hn
  exact ⟨D, hst.knows n D hD, Nat.le_trans hsize hle⟩

theorem settled_empty (reserved : List String) : Settled [] (empty reserved) :=
  ⟨fun _ _ h => absurd h (not_knows_of_eq_none rfl), fun _ h => absurd h List.not_mem_nil⟩

theorem map_fst_fillPlace : (s.fillPlace name text).hoisted.map (·.1) = s.hoisted.map (·.1) := by
  rw [fillPlace, List.map_map]
  refine List.map_congr_left fun h _ => ?_
  show (if h.1 = name then (name, some text) else h).1 = h.1
  split
  · next heq => exact heq.symm
  · rfl

/-- To fill a place settles nothing anew. -/
theorem Settled.fillPlace (h : Settled scopes s) : Settled scopes (s.fillPlace name text) := by
  refine ⟨fun n D hn hscopes => (h.known n D hn hscopes).mono (keeps_fillPlace s name text), ?_⟩
  rw [map_fst_fillPlace]
  exact h.placed

theorem Settled.openPlace (h : Settled scopes s) (hname : s.Knows name definition) :
    Settled scopes (s.openPlace name) := by
  refine ⟨fun n D hn hscopes => (h.known n D hn hscopes).mono (keeps_openPlace s name), ?_⟩
  intro n hn
  rw [Session.openPlace, List.map_append, List.mem_append] at hn
  rcases hn with hn | hn
  · exact h.placed n hn
  · obtain rfl := List.mem_singleton.1 hn
    show (s.definition? n).isSome = true
    rw [hname]
    rfl

theorem Settled.closePlace (h : Settled scopes s) : Settled scopes (s.closePlace name) := by
  refine ⟨fun n D hn hscopes => (h.known n D hn hscopes).mono (keeps_closePlace s name), ?_⟩
  intro n hn
  obtain ⟨place, hplace, rfl⟩ := List.mem_map.1 hn
  exact h.placed _ (List.mem_map_of_mem (List.mem_filter.1 hplace).1)

/-- A new alias is settled while its definition is being checked. -/
theorem Settled.define (h : Settled scopes s) (hnew : s.definition? name = none) :
    Settled (name :: scopes) (s.define name definition) := by
  have hkeeps := keeps_define definition hnew
  constructor
  · intro n D hn hscopes
    rw [List.mem_cons, not_or] at hscopes
    rcases knows_define_iff.1 hn with ⟨heq, -⟩ | ⟨-, hn⟩
    · exact absurd heq hscopes.1
    · exact (h.known n D hn hscopes.2).mono hkeeps
  · intro n hn
    obtain ⟨D, hD⟩ := Option.isSome_iff_exists.1 (h.placed n hn)
    rw [hkeeps.knows n D hD]
    rfl

/-- A new alias is settled as soon as it is entered, and is open from then on. -/
theorem Settled.enter (h : Settled scopes s) (hnew : s.definition? name = none) :
    Settled (name :: scopes) (s.enter name definition) :=
  (h.define hnew).openPlace knows_define

/-- The definition that is turned to is in scope, and all of it is left to check. -/
theorem Scoped.enter (h : Scoped scopes (TypeExpr.alias name definition).size s)
    (hnew : s.definition? name = none) :
    Scoped (name :: scopes) definition.size (s.enter name definition) := by
  intro n hn
  rcases List.mem_cons.1 hn with rfl | hn
  · exact ⟨definition, knows_enter, Nat.le_refl _⟩
  · exact h.mono (Nat.le_succ _) (keeps_enter definition hnew) n hn

/-- A new alias is in no scope. -/
theorem Scoped.not_mem {size : Nat} (h : Scoped scopes size s) (hnew : s.definition? name = none) :
    name ∉ scopes := by
  intro hmem
  obtain ⟨D, hD, -⟩ := h name hmem
  exact not_knows_of_eq_none hnew hD

/-- Once its definition is known, an alias is settled for good. -/
theorem Settled.leave (h : Settled (name :: scopes) s) (hname : s.Known (.alias name definition))
    (hknows : s.Knows name definition) : Settled scopes s := by
  refine ⟨fun n D hn hscopes => ?_, h.placed⟩
  by_cases heq : n = name
  · subst heq
    rw [← hknows.unique hn]
    exact hname
  · exact h.known n D hn fun hmem => (List.mem_cons.1 hmem).elim heq hscopes

/-! ### A check establishes what it should -/

/-- What is known after a check of a type that ended well. -/
structure Learned (scopes : List String) (s : Session) (e : TypeExpr) (s' : Session) : Prop where
  state : s' = s.learn e.aliases
  known : s'.Known e
  unmarked : e.isOptional = false
  settled : Settled scopes s'

/-- Checks of a type in these scopes establish what they should. -/
def Learns (scopes : List String) (e : TypeExpr) : Prop :=
  ∀ (route : Route) {s s' : Session} {u : Unit}, check scopes route e s = .ok u s' →
    Settled scopes s → Scoped scopes e.size s → Learned scopes s e s'

/-- Checks one after another: what one of them has established stays. -/
theorem learned_of_checkAll {jobs : List (Route × TypeExpr)} {size : Nat}
    (ih : ∀ job ∈ jobs, Learns scopes job.2 ∧ job.2.size ≤ size)
    (h : checkAll scopes jobs s = .ok u s') (hs : Settled scopes s)
    (hscoped : Scoped scopes size s) :
    s' = s.learn (jobs.flatMap fun job => job.2.aliases) ∧ Settled scopes s' ∧
      ∀ job ∈ jobs, s'.Known job.2 ∧ job.2.isOptional = false := by
  -- What was learned from one part is kept by the checks of the others.
  induction jobs generalizing s with
  | nil =>
    obtain rfl := checkAll_nil_iff.1 h
    exact ⟨rfl, hs, fun _ hj => by cases hj⟩
  | cons job rest ihrest =>
    rw [List.forall_mem_cons] at ih
    obtain ⟨t, hjob, hrest⟩ := checkAll_cons_iff.1 h
    have hlearned := ih.1.1 job.1 hjob hs (hscoped.mono ih.1.2 (.refl s))
    have hkeeps : s.Keeps t := by rw [hlearned.state]; exact keeps_learn _
    obtain ⟨hstate, hsettled, hknown⟩ :=
      ihrest ih.2 hrest hlearned.settled (hscoped.mono (Nat.le_refl _) hkeeps)
    refine ⟨?_, hsettled, List.forall_mem_cons.2 ⟨⟨?_, hlearned.unmarked⟩, hknown⟩⟩
    · rw [hstate, hlearned.state, List.flatMap_cons, learn_append]
    · refine hlearned.known.mono ?_
      rw [hstate]
      exact keeps_learn _

/-- A new alias is known with all of its definition once that is checked. -/
theorem learned_of_new (hname : Nameable s.reserved name definition) (hjson : name ≠ jsonValueName)
    (hnew : s.definition? name = none) (hs : Settled scopes s)
    (h : Learned (name :: scopes) (s.enter name definition) definition t) :
    Learned scopes s (.alias name definition)
      (t.fillPlace name (definition.declarationText name)) := by
  have hkeeps : (s.enter name definition).Keeps t := h.state ▸ keeps_learn _
  have hdefined : t.Knows name definition := hkeeps.knows _ _ knows_enter
  have hreserved : t.reserved = s.reserved := ((keeps_enter definition hnew).trans hkeeps).reserved
  have hknown : t.Known (.alias name definition) :=
    known_alias (hreserved ▸ hname) (fun _ => hdefined) h.unmarked h.known
  -- The places are those of known aliases, so the new one has none.
  have hfree : name ∉ s.hoisted.map (·.1) := by
    intro hmem
    have hsome := hs.placed name hmem
    rw [hnew] at hsome
    cases hsome
  refine ⟨?_, hknown.mono (keeps_fillPlace _ _ _), rfl, (h.settled.leave hknown hdefined).fillPlace⟩
  rw [h.state, fillPlace_learn (settles_of_knows knows_enter), aliases_alias, learn_cons,
    fillPlace_enter hjson hnew hfree]

/-- An alias that is met: it is known already, or its definition is checked. -/
theorem learns_alias (ih : ∀ scopes, Learns scopes definition) :
    Learns scopes (.alias name definition) := by
  intro route s s' u h hs hscoped
  obtain ⟨new, t, hregister, h⟩ := check_alias_iff.1 h
  obtain ⟨hname, hregistered⟩ := register_iff.1 hregister
  cases hregistered with
  | json hjson =>
    obtain rfl := h
    obtain rfl := hname.canonical hjson
    have hknown : s'.Known (.alias name (.reference jsonValueName)) :=
      known_alias hname (fun hne => absurd hjson hne) rfl (known_reference (.inl rfl))
    exact ⟨hknown.learn_eq.symm, hknown, rfl, hs⟩
  | known hjson hknows =>
    obtain rfl := h
    -- A definition that is being checked is too large to be the one of an alias inside it.
    have hscopes : name ∉ scopes := by
      intro hmem
      obtain ⟨D, hD, hsize⟩ := hscoped name hmem
      rw [← Knows.unique hknows hD] at hsize
      exact absurd hsize (Nat.not_le_of_lt (Nat.lt_succ_self _))
    have hknown := hs.known name definition hknows hscopes
    exact ⟨hknown.learn_eq.symm, hknown, rfl, hs⟩
  | new hjson hnew =>
    rw [if_pos (by simp [hscoped.not_mem hnew])] at h
    obtain ⟨t, hcheck, rfl⟩ := h
    have hinside := ih _ (route ++ [name]) hcheck (hs.enter hnew) (hscoped.enter hnew)
    exact learned_of_new hname hjson hnew hs hinside

/-- A record teaches what its fields do, in their order. -/
theorem learns_record {fields : List (String × TypeExpr)}
    (ih : ∀ f ∈ fields, Learns scopes f.2.unmarked) : Learns scopes (.record fields) := by
  intro route s s' u h hs hscoped
  obtain ⟨hshape, hall⟩ := check_record_iff.1 h
  have hjobs : ∀ job ∈ fieldJobs route fields,
      Learns scopes job.2 ∧ job.2.size ≤ (record fields).size :=
    List.forall_mem_map.2 fun f hf => ⟨ih f hf, size_unmarked_le_record hf⟩
  obtain ⟨hstate, hsettled, hknown⟩ := learned_of_checkAll hjobs hall hs hscoped
  refine ⟨?_, everywhere_record.2 ⟨fits_of_wellShaped hshape rfl, fun f hf => ?_⟩, rfl, hsettled⟩
  · rw [hstate, aliases_record, fieldJobs, List.flatMap_map]
    simp only [aliases_unmarked]
  · obtain ⟨hf, hoptional⟩ := hknown _ (List.mem_map_of_mem hf)
    exact known_of_unmarked hoptional hf

/-- A union teaches what its variants do, in their order. -/
theorem learns_union {variants : List TypeExpr} (ih : ∀ v ∈ variants, Learns scopes v) :
    Learns scopes (.union variants) := by
  intro route s s' u h hs hscoped
  obtain ⟨hshape, hall⟩ := check_union_iff.1 h
  have hjobs : ∀ job ∈ variantJobs route variants,
      Learns scopes job.2 ∧ job.2.size ≤ (union variants).size :=
    List.forall_mem_map.2 fun v hv => ⟨ih v hv, Nat.le_of_lt (size_lt_of_mem_children hv)⟩
  obtain ⟨hstate, hsettled, hknown⟩ := learned_of_checkAll hjobs hall hs hscoped
  refine ⟨?_, everywhere_union.2 ⟨fits_of_wellShaped hshape rfl, fun v hv => ?_⟩, rfl, hsettled⟩
  · rw [hstate, aliases_union, variantJobs, List.flatMap_map]
  · exact (hknown _ (List.mem_map_of_mem hv)).1

/-- A check that ends well has met the aliases of the type and knows all of it. -/
theorem check_sound (e : TypeExpr) (scopes : List String) : Learns scopes e := by
  induction e generalizing scopes with
  | primitive kind =>
    intro route s s' u h hs _
    obtain rfl := check_primitive_iff.1 h
    have hfits := fits_of_wellShaped (s := s') (wellShaped_primitive kind) rfl
    exact ⟨rfl, everywhere_primitive.2 hfits, rfl, hs⟩
  | literal value =>
    intro route s s' u h hs _
    obtain rfl := check_literal_iff.1 h
    have hfits := fits_of_wellShaped (s := s') (wellShaped_literal value) rfl
    exact ⟨rfl, everywhere_literal.2 hfits, rfl, hs⟩
  | reference name =>
    intro route s s' u h hs hscoped
    obtain ⟨hmem, rfl⟩ := check_reference_iff.1 h
    obtain ⟨D, hD, _⟩ := hscoped name hmem
    exact ⟨rfl, known_reference (settles_of_knows hD), rfl, hs⟩
  | optional e ih =>
    intro route s s' u h
    exact absurd h check_optional_ne_ok
  | listOf e ih =>
    intro route s s' u h hs hscoped
    obtain ⟨hstate, hknown, hoptional, hsettled⟩ :=
      ih scopes (route ++ [listStep]) h hs (hscoped.mono (Nat.le_succ _) (.refl s))
    refine ⟨aliases_listOf e ▸ hstate, ?_, rfl, hsettled⟩
    exact everywhere_listOf.2 ⟨fits_of_wellShaped (wellShaped_listOf.2 hoptional) rfl, hknown⟩
  | dictOf e ih =>
    intro route s s' u h hs hscoped
    obtain ⟨hstate, hknown, hoptional, hsettled⟩ :=
      ih scopes (route ++ [dictStep]) h hs (hscoped.mono (Nat.le_succ _) (.refl s))
    refine ⟨aliases_dictOf e ▸ hstate, ?_, rfl, hsettled⟩
    exact everywhere_dictOf.2 ⟨fits_of_wellShaped (wellShaped_dictOf.2 hoptional) rfl, hknown⟩
  | record fields ih => exact learns_record fun f hf => (ih f hf).2 scopes
  | union variants ih => exact learns_union fun v hv => ih v hv scopes
  | «alias» name definition ih => exact learns_alias ih

/-! ### Declarations -/

theorem Registered.keeps {new : Bool} (h : Registered s name definition new t) : s.Keeps t := by
  cases h with
  | json _ => exact .refl s
  | known _ _ => exact .refl s
  | new _ hnew => exact keeps_define definition hnew

theorem Registered.keeps_learn {new : Bool} {met : List (String × TypeExpr)}
    (h : Registered s name definition new t) : s.Keeps ((t.closePlace name).learn met) :=
  (h.keeps.trans (keeps_closePlace t name)).trans (Session.keeps_learn met)

theorem Registered.knows {new : Bool} (h : Registered s name definition new t)
    (hjson : name ≠ jsonValueName) : t.Knows name definition := by
  cases h with
  | json heq => exact absurd heq hjson
  | known _ hknows => exact hknows
  | new _ _ => exact knows_define

/-- A registration adds its own alias at most. -/
theorem Registered.knows_or {new : Bool} {n : String} {D : TypeExpr}
    (h : Registered s name definition new t) (hD : t.Knows n D) :
    s.Knows n D ∨ (n, D) = (name, definition) := by
  cases h with
  | json _ => exact .inl hD
  | known _ _ => exact .inl hD
  | new _ _ =>
    rcases knows_define_iff.1 hD with ⟨rfl, rfl⟩ | ⟨-, hD⟩
    · exact .inr rfl
    · exact .inl hD

/-- A registration settles the name of its alias. -/
theorem Registered.settled {new : Bool} (h : Registered s name definition new t)
    (hs : Settled scopes s) : Settled (name :: scopes) t := by
  have hweak : Settled (name :: scopes) s :=
    ⟨fun n D hn hmem => hs.known n D hn fun h => hmem (List.mem_cons_of_mem _ h), hs.placed⟩
  cases h with
  | json _ => exact hweak
  | known _ _ => exact hweak
  | new _ hnew => exact hs.define hnew

/-- What a declaration has established. -/
structure Declared (s : Session) (name : String) (definition : TypeExpr) (text : String)
    (s' : Session) : Prop where
  text : text = definition.declarationText name
  state : ∃ new t, Registered s name definition new t ∧
    s' = (t.closePlace name).learn definition.aliases
  known : s'.Known (.alias name definition)
  knows : s'.Knows name definition
  settled : Settled [] s'

/-- A declaration that ends well has met the aliases of its definition and knows all of it. -/
theorem declare_sound (hjson : name ≠ jsonValueName) (hs : Settled [] s)
    (h : declare name definition route s = .ok text s') : Declared s name definition text s' := by
  obtain ⟨htext, hname, new, t, hregistered, hcheck⟩ := (declare_iff hjson).1 h
  have hknows : (t.closePlace name).Knows name definition := hregistered.knows hjson
  -- The declared alias is in scope, with a definition that is just as large as what is checked.
  have hscoped : Scoped [name] definition.size (t.closePlace name) := by
    intro n hn
    obtain rfl := List.mem_singleton.1 hn
    exact ⟨definition, hknows, Nat.le_refl _⟩
  obtain ⟨hstate, hknown, hoptional, hsettled⟩ :=
    check_sound definition [name] _ hcheck (hregistered.settled hs).closePlace hscoped
  have hkeeps : s.Keeps s' := hstate ▸ hregistered.keeps_learn
  have hknows' : s'.Knows name definition := by
    rw [hstate]
    exact (keeps_learn _).knows _ _ hknows
  have halias : s'.Known (.alias name definition) :=
    known_alias (hkeeps.reserved ▸ hname) (fun _ => hknows') hoptional hknown
  exact ⟨htext, ⟨new, t, hregistered, hstate⟩, halias, hknows', hsettled.leave halias hknows'⟩

theorem Declared.keeps (h : Declared s name definition text s') : s.Keeps s' := by
  obtain ⟨new, t, hregistered, hstate⟩ := h.state
  exact hstate ▸ hregistered.keeps_learn

end BoundaryTypes.Session
