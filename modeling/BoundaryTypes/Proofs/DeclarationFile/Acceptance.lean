/-
  `Acceptance` — for which modules a declaration file is made.

  The conditions of `Acceptable` speak of a module as a whole: of its name, of the parts
  of its types wherever they stand, and of its aliases with their definitions. The
  session checks them step by step and passes over definitions it knows. Nothing is
  lost by that, for the copies are equal, and nothing is refused without a reason.
-/
import BoundaryTypes.Proofs.DeclarationFile.Bindings
import BoundaryTypes.Proofs.Session.Completeness

namespace BoundaryTypes.DeclarationFile

open Outcome TypeExpr

variable {names : DeclarationNames} {d : Descriptor} {f : DeclarationFile} {s : Session}

/-- What a module must be like for a declaration file. -/
structure Acceptable (names : DeclarationNames) (d : Descriptor) : Prop where
  segments : ∀ segment ∈ d.modulePath, isIdentifier segment = true
  /-- A key that may be missing is the key of a record's field. -/
  optionals : ∀ e ∈ d.types, e.isOptional = false ∧
    e.Everywhere fun p => ∀ c ∈ p.children, c.isOptional = true → p.isRecord = true
  records : ∀ e ∈ d.types, ∀ fields, .record fields ∈ e.preorder →
    (∀ field ∈ fields, field.1 ≠ "") ∧ (fields.map (·.1)).Nodup
  /-- Variants are literals with different texts, or records with different literal tags. -/
  unions : ∀ e ∈ d.types, ∀ variants, .union variants ∈ e.preorder → variants ≠ [] →
    Distinct (variants.map literal?) ∨ Distinct (variants.map Session.tag?)
  aliasNames : ∀ e ∈ d.types, ∀ a ∈ e.aliases,
    isTypeName a.1 = true ∧ a.1 ≠ names.app ∧ a.1 ≠ names.root
  jsonValues : ∀ e ∈ d.types, ∀ definition, (jsonValueName, definition) ∈ e.aliases →
    TypeExpr.alias jsonValueName definition = .jsonValue
  /-- No name has two definitions, those at the top level included. -/
  definitions : ∀ n D D', n ≠ jsonValueName → (n, D) ∈ bindings names d →
    (n, D') ∈ bindings names d → D = D'

/-! ### The conditions hold of every file that is made -/

/-- All types of a module are known to the session that made its file. -/
theorem known_of_mem_types (h : Assembled names d f s) (hunion : d.outbound.isUnion = true)
    {e : TypeExpr} (he : e ∈ d.types) : s.Known e ∧ e.isOptional = false := by
  have htops : ∀ b ∈ tops names d, s.Known (.alias b.1 b.2) :=
    fun _ hb => h.known_top hb
  rcases List.mem_cons.1 he with rfl | he
  · refine ⟨(everywhere_alias.1 (htops _ List.mem_cons_self)).2, ?_⟩
    cases hout : d.outbound with
    | optional inner => rw [hout] at hunion; cases hunion
    | _ => rfl
  · have hflags := htops _ (List.mem_cons_of_mem _ (List.mem_map_of_mem he))
    -- Flags are declared without an outermost alias of their name, and that alias is the declared
    -- one.
    cases e with
    | «alias» n definition =>
      refine ⟨?_, rfl⟩
      by_cases hn : n = names.flags
      · rw [unwrapAlias, if_pos hn] at hflags
        exact hn ▸ hflags
      · rw [unwrapAlias, if_neg hn] at hflags
        exact (everywhere_alias.1 hflags).2
    | optional inner => cases wellShaped_alias.1 hflags.self.1.shape
    | _ => exact ⟨(everywhere_alias.1 hflags).2, rfl⟩

/-- Every binding of a module is known to the session that made its file. -/
theorem knows_of_mem_bindings (h : Assembled names d f s) (hunion : d.outbound.isUnion = true)
    {n : String} {D : TypeExpr} (hjson : n ≠ jsonValueName) (hb : (n, D) ∈ bindings names d) :
    s.Knows n D := by
  rcases List.mem_append.1 hb with hb | hb
  · exact h.session.knows (n, D) (List.mem_reverse.2 hb)
  · obtain ⟨e, he, hmem⟩ := List.mem_flatMap.1 hb
    obtain ⟨hknown, -⟩ := known_of_mem_types h hunion he
    exact (hknown _ (mem_aliases.1 hmem)).1.bound n D rfl hjson

theorem acceptable_of_assembled (h : Assembled names d f s) (hunion : d.outbound.isUnion = true)
    (hsegments : ∀ segment ∈ d.modulePath, isIdentifier segment = true) : Acceptable names d := by
  have hknown := fun e (he : e ∈ d.types) => known_of_mem_types h hunion he
  -- The session reserves the two names that the wrapper binds.
  have hnameable : ∀ e ∈ d.types, ∀ a ∈ e.aliases,
      Session.Nameable [names.app, names.root] a.1 a.2 := by
    rintro e he ⟨n, D⟩ ha
    rw [← h.session.reserved]
    exact ((hknown e he).1 _ (mem_aliases.1 ha)).1.nameable n D rfl
  constructor
  · exact hsegments
  · intro e he
    exact ⟨(hknown e he).2, (hknown e he).1.imp fun p hp => hp.1.shape.marks⟩
  · intro e he fields hfields
    obtain ⟨hempty, hnodup⟩ := ((hknown e he).1 _ hfields).1.shape.names fields rfl
    exact ⟨fun field hfield heq => hempty (List.mem_map.2 ⟨field, hfield, heq⟩), hnodup⟩
  · intro e he variants hvariants _
    exact ((hknown e he).1 _ hvariants).1.shape.variants variants rfl
  · intro e he a ha
    have hname := hnameable e he a ha
    refine ⟨hname.typeName, fun heq => hname.free ?_, fun heq => hname.free ?_⟩
    · simp [heq]
    · simp [heq]
  · intro e he definition ha
    exact congrArg (TypeExpr.alias jsonValueName) ((hnameable e he _ ha).canonical rfl)
  · intro n D D' hjson hD hD'
    exact (knows_of_mem_bindings h hunion hjson hD).unique
      (knows_of_mem_bindings h hunion hjson hD')

/-! ### A file is made when the conditions hold -/

/-- The definitions that a module gives to the names other than that of arbitrary JSON. -/
def Bound (names : DeclarationNames) (d : Descriptor) (n : String) (D : TypeExpr) : Prop :=
  n ≠ jsonValueName ∧ (n, D) ∈ bindings names d

theorem Acceptable.functional (h : Acceptable names d) :
    Session.Functional (Bound names d) :=
  fun n D D' hD hD' => h.definitions n D D' hD.1 hD.2 hD'.2

theorem Acceptable.wellShaped (h : Acceptable names d) {e p : TypeExpr} (he : e ∈ d.types)
    (hp : p ∈ e.preorder) : p.WellShaped := by
  refine ⟨(h.optionals e he).2 p hp, ?_, ?_⟩
  · rintro fields rfl
    obtain ⟨hempty, hnodup⟩ := h.records e he fields hp
    refine ⟨fun hmem => ?_, hnodup⟩
    obtain ⟨field, hfield, heq⟩ := List.mem_map.1 hmem
    exact hempty field hfield heq
  · rintro variants rfl
    -- The condition on unions leaves out the empty one, which has no variant to check.
    by_cases hvariants : variants = []
    · subst hvariants
      exact .inl ⟨List.not_mem_nil, List.nodup_nil⟩
    · exact h.unions e he variants hp hvariants

theorem Acceptable.fits (h : Acceptable names d) {e : TypeExpr} (he : e ∈ d.types) :
    e.Everywhere (Session.Fits [names.app, names.root] (Bound names d)) := by
  intro p hp
  refine ⟨h.wellShaped he hp, ?_, ?_⟩
  · rintro n D rfl
    obtain ⟨htype, happ, hroot⟩ := h.aliasNames e he (n, D) (mem_aliases.2 hp)
    refine ⟨htype, by simp [happ, hroot], ?_⟩
    rintro rfl
    exact (TypeExpr.alias.inj (h.jsonValues e he D (mem_aliases.2 hp))).2
  · rintro n D rfl hjson
    exact ⟨hjson, List.mem_append_right _ (List.mem_flatMap.2 ⟨e, he, mem_aliases.2 hp⟩)⟩

/-- What is declared at the top level can be declared, if its references are enclosed. -/
theorem Acceptable.top (h : Acceptable names d) {b : String × TypeExpr} (hb : b ∈ tops names d)
    (hfree : ∀ n ∈ b.2.free, n = b.1) :
    Session.Nameable [names.app, names.root] b.1 b.2 ∧ Bound names d b.1 b.2 ∧
      Session.Admissible [names.app, names.root] (Bound names d) [b.1] b.2 := by
  have hname : isTypeName b.1 = true ∧ b.1 ≠ jsonValueName ∧ b.1 ∉ [names.app, names.root] := by
    rcases List.mem_cons.1 hb with rfl | hb
    · exact names.message_usable
    · obtain ⟨flags, -, rfl⟩ := List.mem_map.1 hb
      obtain ⟨htype, hjson, hfree, -⟩ := names.flags_usable
      exact ⟨htype, hjson, hfree⟩
  obtain ⟨e, he, hpreorder⟩ := preorder_of_mem_tops hb
  -- Behind an alias of flags stands its definition, and the shape of an alias rules out an optional
  -- one.
  have hoptional : b.2.isOptional = false := by
    rcases List.mem_cons.1 hb with rfl | hb
    · exact (h.optionals d.outbound List.mem_cons_self).1
    · obtain ⟨flags, hflags, rfl⟩ := List.mem_map.1 hb
      have hmem : flags ∈ d.types := List.mem_cons_of_mem _ hflags
      show (unwrapAlias names.flags flags).isOptional = false
      cases flags with
      | «alias» n definition =>
        by_cases hn : n = names.flags
        · rw [unwrapAlias, if_pos hn]
          exact wellShaped_alias.1 (h.wellShaped hmem (mem_preorder_self _))
        · rw [unwrapAlias, if_neg hn]
          rfl
      | optional inner => exact (h.optionals _ hmem).1
      | _ => rfl
  refine ⟨⟨hname.1, hname.2.2, fun hjson => absurd hjson hname.2.1⟩, ?_, ?_⟩
  · exact ⟨hname.2.1, List.mem_append_left _ hb⟩
  · refine ⟨fun p hp => h.fits he p (hpreorder hp), hoptional, fun n hn => ?_⟩
    rw [List.mem_singleton]
    exact hfree n hn

/-- The session between two declarations agrees with the definitions of the module. -/
theorem agrees_of_declaring {done : List (String × TypeExpr)}
    (hs : Declaring [names.app, names.root] done s) (hdone : ∀ b ∈ done, b ∈ tops names d) :
    Session.Agrees [names.app, names.root] (Bound names d) [] 0 s := by
  refine ⟨hs.reserved, fun n D hD => ⟨?_, hs.mem_bindings hdone hD⟩, hs.settled, ?_⟩
  · rintro rfl
    exact hs.placed.json D hD
  · exact fun _ hn => absurd hn List.not_mem_nil

/-- All that is left to declare can be declared, whatever is declared already. -/
theorem exists_declareAll (h : Acceptable names d) {done todo : List (String × TypeExpr)}
    (hdone : ∀ b ∈ done, b ∈ tops names d) (htodo : ∀ b ∈ todo, b ∈ tops names d)
    (hfree : ∀ b ∈ todo, ∀ n ∈ b.2.free, n = b.1) (hdeclarable : DeclarableAll done todo)
    (hs : Declaring [names.app, names.root] done s) :
    ∃ top s', declareAll todo s = .ok top s' := by
  induction todo generalizing done s with
  | nil => exact ⟨[], s, rfl⟩
  | cons b rest ih =>
    rw [List.forall_mem_cons] at htodo hfree
    obtain ⟨hname, hbound, hadmissible⟩ := h.top htodo.1 hfree.1
    obtain ⟨text, t, htext⟩ := Session.declare_complete [] h.functional
      hdeclarable.1.1 hname hbound hadmissible (agrees_of_declaring hs hdone)
    have ht := (hs.step hdeclarable.1 htext).1
    -- The invariant between declarations holds again, so the rest can be declared, too.
    obtain ⟨others, s', hothers⟩ := ih (List.forall_mem_cons.2 ⟨htodo.1, hdone⟩) htodo.2 hfree.2
      hdeclarable.2 ht
    exact ⟨_, s', declareAll_cons_iff.2 ⟨text, t, others, htext, hothers, rfl⟩⟩

theorem exists_assemble (h : Acceptable names d) (hunion : d.outbound.isUnion = true)
    (hfree : ∀ b ∈ tops names d, ∀ n ∈ b.2.free, n = b.1) : ∃ f, assemble names d = .ok f := by
  obtain ⟨top, s, htop⟩ := exists_declareAll h (fun _ hb => absurd hb List.not_mem_nil)
    (fun _ hb => hb) hfree (declarableAll_tops names d) (declaring_empty _)
  have hrun := declare_iff.2 ⟨top, htop, rfl⟩
  have hdeclarations : ∃ declarations, declarationsOf names d = .ok declarations := by
    unfold declarationsOf
    rw [EStateM.run, hrun]
    exact ⟨_, rfl⟩
  obtain ⟨declarations, hdeclarations⟩ := hdeclarations
  unfold assemble
  dsimp only
  rw [if_neg, if_neg, hdeclarations]
  · exact ⟨_, rfl⟩
  · simp [hunion]
  · simpa using h.segments

/-- **Exact acceptance.** Of a module whose messages form a union, and whose references are all
enclosed by an alias of their name, a declaration file is made if and only if the module is
acceptable. The messages count as enclosed by their name, and so do the flags, once an outermost
alias of that name is taken off. -/
theorem assemble_accepts_iff (hunion : d.outbound.isUnion = true)
    (hmessage : ∀ n ∈ d.outbound.free, n = names.message)
    (hflags : ∀ flags ∈ d.flags, ∀ n ∈ (unwrapAlias names.flags flags).free, n = names.flags) :
    (∃ f, assemble names d = .ok f) ↔ Acceptable names d := by
  constructor
  · rintro ⟨f, hf⟩
    obtain ⟨s, hs⟩ := assemble_sound hf
    exact acceptable_of_assembled hs hunion (assemble_eq_ok hf).1
  · intro h
    refine exists_assemble h hunion ?_
    rw [tops, List.forall_mem_cons, List.forall_mem_map]
    refine ⟨hmessage, fun flags hmem => ?_⟩
    exact hflags flags (Option.mem_toList.1 hmem)

/-- A module whose messages and flags refer to themselves. -/
def recursive : Descriptor where
  moduleName := "Main.Tree"
  outbound := .taggedUnion [("more", [("next", .reference "FromElm")]), ("done", [])]
  flags := some (.alias "Flags" (.record [("below", .listOf (.reference "Flags"))]))

theorem assemble_accepts_iff_recursive :
    (∃ f, assemble .standard recursive = .ok f) ↔ Acceptable .standard recursive :=
  assemble_accepts_iff rfl (by decide +kernel) (by decide +kernel)

end BoundaryTypes.DeclarationFile
