/-
  `Bindings` — what a declaration file binds, and to what.

  A file declares the union of messages and the flags type at the top level, one
  after the other in one session. `Declaring` is what holds of the session between
  these declarations; a declaration keeps it (`Declaring.step`), and so does the whole
  run (`Declaring.run`). So every file that is made is `Assembled` by such a session
  (`assemble_sound`).
-/
import BoundaryTypes.DeclarationFile
import BoundaryTypes.Proofs.Session.Places

namespace BoundaryTypes

open Outcome TypeExpr

/-! ### The names of the fixed parts -/

namespace DeclarationNames

variable (names : DeclarationNames)

theorem usable_and_distinct :
    (∀ p ∈ names.parts, isTypeName p.2 = true ∧ p.2 ≠ jsonValueName) ∧
      (names.parts.map (·.2)).Nodup := by
  have h := names.sound
  unfold ChosenNames.fault? at h
  split at h
  · cases h
  · next hnone =>
    -- No part has a fault, and no two names are the same: that is what `sound` says.
    refine ⟨fun p hp => ?_, ?_⟩
    · have hpart := List.findSome?_eq_none_iff.1 hnone p hp
      unfold ChosenNames.partFault? at hpart
      split at hpart
      · cases hpart
      next htype =>
      split at hpart
      · cases hpart
      next hjson =>
      exact ⟨by simpa using htype, hjson⟩
    · by_cases hnodup : (names.parts.map (·.2)).Nodup
      · exact hnodup
      · rw [if_neg hnodup] at h
        cases h

/-- The message name can be bound at the top level. -/
theorem message_usable : isTypeName names.message = true ∧ names.message ≠ jsonValueName ∧
    names.message ∉ [names.app, names.root] := by
  obtain ⟨husable, hdistinct⟩ := names.usable_and_distinct
  obtain ⟨htype, hjson⟩ := husable (.message, names.message) (by simp [ChosenNames.parts])
  refine ⟨htype, hjson, ?_⟩
  simp only [ChosenNames.parts, List.map_cons, List.nodup_cons, List.mem_cons] at hdistinct ⊢
  exact fun h => hdistinct.1 (.inr h)

/-- The flags name can be bound at the top level. -/
theorem flags_usable : isTypeName names.flags = true ∧ names.flags ≠ jsonValueName ∧
    names.flags ∉ [names.app, names.root] ∧ names.flags ≠ names.message := by
  obtain ⟨husable, hdistinct⟩ := names.usable_and_distinct
  obtain ⟨htype, hjson⟩ := husable (.flags, names.flags) (by simp [ChosenNames.parts])
  simp only [ChosenNames.parts, List.map_cons, List.nodup_cons, List.mem_cons] at hdistinct ⊢
  exact ⟨htype, hjson, hdistinct.2.1, fun h => hdistinct.1 (.inl h.symm)⟩

end DeclarationNames

namespace DeclarationFile

variable {s s' : Session}

/-! ### Declarations at the top level -/

/-- The aliases that a file declares at the top level. -/
def tops (names : DeclarationNames) (d : Descriptor) : List (String × TypeExpr) :=
  (names.message, d.outbound) ::
    d.flags.toList.map fun flags => (names.flags, unwrapAlias names.flags flags)

/-- The aliases of a module with their definitions: those at the top level of its file, and all that
its types hold. -/
def bindings (names : DeclarationNames) (d : Descriptor) : List (String × TypeExpr) :=
  tops names d ++ d.types.flatMap aliases

theorem preorder_unwrapAlias {name : String} {e p : TypeExpr}
    (h : p ∈ (unwrapAlias name e).preorder) : p ∈ e.preorder := by
  cases e with
  | «alias» n definition =>
    by_cases hn : n = name
    · rw [unwrapAlias, if_pos hn] at h
      exact mem_preorder_iff.2 (.inr ⟨definition, List.mem_cons_self, h⟩)
    · rw [unwrapAlias, if_neg hn] at h
      exact h
  | _ => exact h

/-- What is declared at the top level is inside a type of the module. -/
theorem preorder_of_mem_tops {names : DeclarationNames} {d : Descriptor} {b : String × TypeExpr}
    (h : b ∈ tops names d) : ∃ e ∈ d.types, ∀ {p}, p ∈ b.2.preorder → p ∈ e.preorder := by
  rcases List.mem_cons.1 h with rfl | h
  · exact ⟨d.outbound, List.mem_cons_self, id⟩
  · obtain ⟨flags, hflags, rfl⟩ := List.mem_map.1 h
    exact ⟨flags, List.mem_cons_of_mem _ hflags, preorder_unwrapAlias⟩

/-- The binding of a name to a type. -/
def declaration (b : String × TypeExpr) : Declaration := ⟨b.1, b.2.declarationText b.1⟩

/-- Declares aliases at the top level one after another. -/
def declareAll : List (String × TypeExpr) → SessionM (List Declaration)
  | [] => pure []
  | b :: rest => do
    let text ← Session.declare b.1 b.2 []
    let others ← declareAll rest
    pure (⟨b.1, text⟩ :: others)

theorem declareAll_cons_iff {b : String × TypeExpr} {rest : List (String × TypeExpr)}
    {bindings : List Declaration} :
    declareAll (b :: rest) s = .ok bindings s' ↔
      ∃ text t others, Session.declare b.1 b.2 [] s = .ok text t ∧
        declareAll rest t = .ok others s' ∧ bindings = ⟨b.1, text⟩ :: others := by
  rw [declareAll, bind_run_eq_ok]
  simp only [bind_run_eq_ok, pure_run_eq_ok]
  constructor
  · rintro ⟨text, t, htext, others, _, hothers, rfl, rfl⟩
    exact ⟨text, t, others, htext, hothers, rfl⟩
  · rintro ⟨text, t, others, htext, hothers, rfl⟩
    exact ⟨text, t, htext, others, s', hothers, rfl, rfl⟩

/-- The bindings of a file are those at the top level, the hoisted ones, and the type of arbitrary
JSON. -/
theorem declare_iff {names : DeclarationNames} {d : Descriptor} {bindings : List Declaration} :
    declare names d s = .ok bindings s' ↔
      ∃ top, declareAll (tops names d) s = .ok top s' ∧
        bindings = top ++ hoistedDeclarations s' ++
          jsonValueDeclarations d.types := by
  have hmessage : declare names d = (do
      let text ← Session.declare names.message d.outbound []
      let flags ← declareFlags names d.flags
      let s ← get
      pure (⟨names.message, text⟩ :: flags ++ hoistedDeclarations s
        ++ jsonValueDeclarations d.types)) := rfl
  -- Flags are declared like the union of messages, if there are any.
  have hflags : declareFlags names d.flags =
      declareAll (d.flags.toList.map fun flags =>
        (names.flags, unwrapAlias names.flags flags)) := by
    cases d.flags with
    | none => rfl
    | some flags => rfl
  rw [hmessage, bind_run_eq_ok]
  simp only [tops, declareAll_cons_iff, bind_run_eq_ok, pure_run_eq_ok, hflags]
  constructor
  · rintro ⟨text, t, htext, others, t', hothers, _, _, hget, rfl, rfl⟩
    cases hget
    exact ⟨_, ⟨text, t, others, htext, hothers, rfl⟩, rfl⟩
  · rintro ⟨_, ⟨text, t, others, htext, hothers, rfl⟩, rfl⟩
    exact ⟨text, t, htext, others, s', hothers, s', s', rfl, rfl, rfl⟩

/-! ### The invariant between declarations -/

/-- What holds of a session that has declared some aliases at the top level, the latest first. -/
structure Declaring (reserved : List String) (done : List (String × TypeExpr)) (s : Session) :
    Prop where
  reserved : s.reserved = reserved
  settled : Session.Settled [] s
  placed : Session.Placed (done.map (·.1)) s
  known : ∀ b ∈ done, s.Known (.alias b.1 b.2)
  knows : ∀ b ∈ done, s.Knows b.1 b.2
  /-- Nothing is known but what the declared aliases hold. -/
  learned : ∀ n D, s.Knows n D → ∃ b ∈ done, (n, D) ∈ (TypeExpr.alias b.1 b.2).aliases

theorem declaring_empty (reserved : List String) :
    Declaring reserved [] (Session.empty reserved) := by
  refine ⟨rfl, Session.settled_empty reserved, Session.placed_empty reserved, ?_, ?_, ?_⟩
  · exact fun _ h => absurd h List.not_mem_nil
  · exact fun _ h => absurd h List.not_mem_nil
  · exact fun _ _ h => absurd h (Session.not_knows_of_eq_none rfl)

variable {reserved : List String} {done todo : List (String × TypeExpr)} {b : String × TypeExpr}

/-- A name can be declared when it is not the one of arbitrary JSON and not declared already. -/
def Declarable (done : List (String × TypeExpr)) (name : String) : Prop :=
  name ≠ jsonValueName ∧ name ∉ done.map (·.1)

/-- A declaration keeps the invariant. -/
theorem Declaring.step {text : String} (hs : Declaring reserved done s)
    (hb : Declarable done b.1) (h : Session.declare b.1 b.2 [] s = .ok text s') :
    Declaring reserved (b :: done) s' ∧ text = b.2.declarationText b.1 := by
  have hdeclared := Session.declare_sound hb.1 hs.settled h
  have hkeeps := hdeclared.keeps
  obtain ⟨new, t, hregistered, hstate⟩ := hdeclared.state
  refine ⟨⟨?_, hdeclared.settled, ?_, ?_, ?_, ?_⟩, hdeclared.text⟩
  · rw [hkeeps.reserved, hs.reserved]
  · rw [hstate]
    exact (hs.placed.declare hb.1 hb.2 hregistered).learn _
  · rw [List.forall_mem_cons]
    exact ⟨hdeclared.known, fun a ha => (hs.known a ha).mono hkeeps⟩
  · rw [List.forall_mem_cons]
    exact ⟨hdeclared.knows, fun a ha => hkeeps.knows _ _ (hs.knows a ha)⟩
  · intro n D hD
    rw [hstate] at hD
    -- Known before, registered now, or met inside the definition.
    rcases Session.knows_learn hD with hD | ⟨-, hmet⟩
    · have hD : t.Knows n D := hD
      rcases hregistered.knows_or hD with hD | heq
      · obtain ⟨a, ha, hmem⟩ := hs.learned n D hD
        exact ⟨a, List.mem_cons_of_mem _ ha, hmem⟩
      · refine ⟨b, List.mem_cons_self, ?_⟩
        rw [heq, aliases_alias]
        exact List.mem_cons_self
    · refine ⟨b, List.mem_cons_self, ?_⟩
      rw [aliases_alias]
      exact List.mem_cons_of_mem _ hmet

/-- Names that can be declared one after another. -/
def DeclarableAll : List (String × TypeExpr) → List (String × TypeExpr) → Prop
  | _, [] => True
  | done, b :: rest => Declarable done b.1 ∧ DeclarableAll (b :: done) rest

/-- A run of declarations keeps the invariant and binds each name to its own definition. -/
theorem Declaring.run {bindings : List Declaration} (hs : Declaring reserved done s)
    (htodo : DeclarableAll done todo) (h : declareAll todo s = .ok bindings s') :
    Declaring reserved (todo.reverse ++ done) s' ∧ bindings = todo.map declaration := by
  -- By induction on what is still to be declared; the invariant goes with what is done.
  induction todo generalizing done s bindings with
  | nil =>
    obtain ⟨rfl, rfl⟩ := pure_run_eq_ok.1 h
    exact ⟨hs, rfl⟩
  | cons b rest ih =>
    obtain ⟨text, t, others, htext, hothers, rfl⟩ := declareAll_cons_iff.1 h
    obtain ⟨ht, rfl⟩ := hs.step htodo.1 htext
    obtain ⟨hs', rfl⟩ := ih ht htodo.2 hothers
    rw [List.reverse_cons, List.append_assoc]
    exact ⟨hs', rfl⟩

theorem declarableAll_tops (names : DeclarationNames) (d : Descriptor) :
    DeclarableAll [] (tops names d) := by
  refine ⟨⟨names.message_usable.2.1, List.not_mem_nil⟩, ?_⟩
  cases d.flags with
  | none => exact trivial
  | some flags =>
    refine ⟨⟨names.flags_usable.2.1, ?_⟩, trivial⟩
    show names.flags ∉ [names.message]
    rw [List.mem_singleton]
    exact names.flags_usable.2.2.2

/-! ### The file -/

/-- What is in a file, and the session that made it. -/
structure Assembled (names : DeclarationNames) (d : Descriptor) (f : DeclarationFile)
    (s : Session) : Prop where
  declarations : f.declarations =
    (tops names d).map declaration ++ hoistedDeclarations s ++ jsonValueDeclarations d.types
  session : Declaring [names.app, names.root] (tops names d).reverse s

theorem Assembled.knows_top {names : DeclarationNames} {d : Descriptor} {f : DeclarationFile}
    (h : Assembled names d f s) (hb : b ∈ tops names d) : s.Knows b.1 b.2 :=
  h.session.knows b (List.mem_reverse.2 hb)

theorem Assembled.known_top {names : DeclarationNames} {d : Descriptor} {f : DeclarationFile}
    (h : Assembled names d f s) (hb : b ∈ tops names d) : s.Known (.alias b.1 b.2) :=
  h.session.known b (List.mem_reverse.2 hb)

theorem Assembled.known_of_knows {names : DeclarationNames} {d : Descriptor} {f : DeclarationFile}
    (h : Assembled names d f s) {n : String} {D : TypeExpr} (hD : s.Knows n D) :
    s.Known (.alias n D) :=
  h.session.settled.known n D hD List.not_mem_nil

/-- Whatever is known by the end is a binding of the module. -/
theorem Declaring.mem_bindings {names : DeclarationNames} {d : Descriptor}
    (hs : Declaring reserved done s) (hdone : ∀ b ∈ done, b ∈ tops names d) {n : String}
    {D : TypeExpr} (hD : s.Knows n D) : (n, D) ∈ bindings names d := by
  obtain ⟨b, hb, hmem⟩ := hs.learned n D hD
  rw [aliases_alias, List.mem_cons] at hmem
  -- A declared alias, or one inside its definition, which is inside a type of the module.
  rcases hmem with heq | hmem
  · exact List.mem_append_left _ (heq ▸ hdone b hb)
  · obtain ⟨e, he, hpreorder⟩ := preorder_of_mem_tops (hdone b hb)
    refine List.mem_append_right _ (List.mem_flatMap.2 ⟨e, he, ?_⟩)
    exact mem_aliases.2 (hpreorder (mem_aliases.1 hmem))

theorem Assembled.mem_bindings {names : DeclarationNames} {d : Descriptor} {f : DeclarationFile}
    (h : Assembled names d f s) {n : String} {D : TypeExpr} (hD : s.Knows n D) :
    (n, D) ∈ bindings names d :=
  h.session.mem_bindings (fun _ hb => List.mem_reverse.1 hb) hD

theorem assemble_eq_ok {names : DeclarationNames} {d : Descriptor} {f : DeclarationFile}
    (h : assemble names d = .ok f) :
    (∀ segment ∈ d.modulePath, isIdentifier segment = true) ∧ d.outbound.isUnion = true ∧
      declarationsOf names d = .ok f.declarations := by
  unfold assemble at h
  dsimp only at h
  split at h
  · cases h
  next hsegments =>
  split at h
  · cases h
  next hunion =>
  split at h
  · cases h
  · next declarations hdeclarations =>
    cases h
    refine ⟨?_, by simpa using hunion, hdeclarations⟩
    -- Three conditions in the order of their faults: segments, union, declarations.
    exact List.all_eq_true.1 (by simpa using hsegments)

/-- A file that is made holds what a run of declarations leaves. -/
theorem assemble_run {names : DeclarationNames} {d : Descriptor} {f : DeclarationFile}
    (h : assemble names d = .ok f) :
    ∃ top s, declareAll (tops names d) (Session.empty [names.app, names.root]) = .ok top s ∧
      f.declarations = top ++ hoistedDeclarations s ++ jsonValueDeclarations d.types := by
  obtain ⟨-, -, h⟩ := assemble_eq_ok h
  unfold declarationsOf at h
  split at h
  · next bindings s hrun =>
    cases h
    obtain ⟨top, htop, hdeclarations⟩ := declare_iff.1 hrun
    exact ⟨top, s, htop, hdeclarations⟩
  · cases h

/-- A run of the declarations of a module makes the session that its file is assembled from. -/
theorem declaring_of_run {names : DeclarationNames} {d : Descriptor} {top : List Declaration}
    (h : declareAll (tops names d) (Session.empty [names.app, names.root]) = .ok top s) :
    Declaring [names.app, names.root] (tops names d).reverse s ∧
      top = (tops names d).map declaration := by
  have hrun := (declaring_empty [names.app, names.root]).run (declarableAll_tops names d) h
  rw [List.append_nil] at hrun
  exact hrun

/-- A file that is made holds the declarations of a session that knows all types. -/
theorem assemble_sound {names : DeclarationNames} {d : Descriptor} {f : DeclarationFile}
    (h : assemble names d = .ok f) : ∃ s, Assembled names d f s := by
  obtain ⟨top, s, htop, hdeclarations⟩ := assemble_run h
  obtain ⟨hsession, rfl⟩ := declaring_of_run htop
  exact ⟨s, hdeclarations, hsession⟩

end DeclarationFile

end BoundaryTypes
