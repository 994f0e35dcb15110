/-
  `Closed` — a declaration file binds every name it uses, and binds it once.

  The names of a file are those at the top level, those of the places of the session,
  and that of arbitrary JSON if a type mentions it. The session knows every alias that
  a definition mentions, and has one place for it; so every mentioned name is among
  the names of the file, which do not repeat.
-/
import BoundaryTypes.Proofs.DeclarationFile.Bindings

namespace BoundaryTypes.DeclarationFile

open TypeExpr

variable {names : DeclarationNames} {d : Descriptor} {f : DeclarationFile} {s : Session}

/-- What a declaration of a file stands for: an alias with its definition, or arbitrary JSON. -/
inductive Declares (names : DeclarationNames) (d : Descriptor) : Declaration → TypeExpr → Prop
  | «alias» {name : String} {definition : TypeExpr} (h : (name, definition) ∈ bindings names d) :
    Declares names d (declaration (name, definition)) definition
  | json : Declares names d ⟨jsonValueName, jsonValueDeclaration⟩ (.reference jsonValueName)

/-- The text of a declaration begins by binding its name. -/
def Begins (b : Declaration) : Prop := ∃ rest, b.text = "type " ++ b.name ++ " =" ++ rest

/-- A file that binds every name it uses, and binds it once. -/
structure Closed (names : DeclarationNames) (d : Descriptor) (f : DeclarationFile) : Prop where
  nodup : (f.declarations.map (·.name)).Nodup
  /-- The names of the wrapper are bound by the wrapper alone. -/
  wrapper : ∀ n ∈ [names.app, names.root], n ∉ f.declarations.map (·.name)
  texts : ∀ b ∈ f.declarations, b.text ≠ ""
  begins : ∀ b ∈ f.declarations, Begins b
  bound : ∀ b ∈ f.declarations, ∃ definition, Declares names d b definition ∧
    ∀ n, definition.mentions n = true → (f.declarations.map (·.name)).count n = 1

/-! ### The names of a file -/

/-- The name of arbitrary JSON, if a type of the module mentions it. -/
def jsonNames (d : Descriptor) : List String :=
  if d.types.any (·.mentions jsonValueName) then [jsonValueName] else []

theorem mem_jsonNames {n : String} :
    n ∈ jsonNames d ↔ n = jsonValueName ∧ ∃ e ∈ d.types, e.mentions jsonValueName = true := by
  unfold jsonNames
  split
  · next h => rw [List.mem_singleton]; exact (and_iff_left (List.any_eq_true.1 h)).symm
  · next h =>
    rw [List.any_eq_true] at h
    exact ⟨fun hn => absurd hn List.not_mem_nil, fun hn => absurd hn.2 h⟩

theorem names_eq (h : Assembled names d f s) :
    f.declarations.map (·.name) =
      (tops names d).map (·.1) ++ s.hoisted.map (·.1) ++ jsonNames d := by
  have htops : ((tops names d).map declaration).map (·.name) = (tops names d).map (·.1) :=
    List.map_map
  have hhoisted : (hoistedDeclarations s).map (·.name) = s.hoisted.map (·.1) := List.map_map
  have hjson : (jsonValueDeclarations d.types).map (·.name) = jsonNames d := by
    unfold jsonValueDeclarations jsonNames
    split <;> rfl
  rw [h.declarations, List.map_append, List.map_append, htops, hhoisted, hjson]

/-- The names at the top level and of the places are those that the session knows. -/
theorem mem_names_iff (h : Assembled names d f s) {n : String} :
    n ∈ (tops names d).map (·.1) ++ s.hoisted.map (·.1) ↔ ∃ D, s.Knows n D := by
  rw [h.session.placed.bound n]
  simp only [List.map_reverse, List.mem_append, List.mem_reverse]

theorem nodup_names (h : Assembled names d f s) : (f.declarations.map (·.name)).Nodup := by
  have hplaced := h.session.placed
  have hnodup : ((tops names d).map (·.1) ++ s.hoisted.map (·.1)).Nodup := by
    refine List.Perm.nodup ?_ hplaced.nodup
    rw [List.map_reverse]
    exact (List.reverse_perm _).append_right _
  rw [names_eq h, List.nodup_append]
  refine ⟨hnodup, ?_, ?_⟩
  · unfold jsonNames
    split <;> simp
  · rintro n hn m hm rfl
    obtain ⟨D, hD⟩ := (mem_names_iff h).1 hn
    rw [(mem_jsonNames.1 hm).1] at hD
    exact hplaced.json D hD

/-- A known alias may bear its name. -/
theorem nameable_of_knows (h : Assembled names d f s) {n : String} {D : TypeExpr}
    (hD : s.Knows n D) : Session.Nameable [names.app, names.root] n D := by
  rw [← h.session.reserved]
  exact (h.known_of_knows hD).self.1.nameable n D rfl

/-- A name that the wrapper binds is none of a declaration. -/
theorem not_mem_names (h : Assembled names d f s) {n : String} (hn : n ∈ [names.app, names.root]) :
    n ∉ f.declarations.map (·.name) := by
  rw [names_eq h, List.mem_append]
  rintro (hmem | hmem)
  · obtain ⟨D, hD⟩ := (mem_names_iff h).1 hmem
    exact (nameable_of_knows h hD).free hn
  · obtain ⟨rfl, -⟩ := mem_jsonNames.1 hmem
    -- The name of arbitrary JSON cannot be chosen for the wrapper.
    obtain ⟨husable, -⟩ := names.usable_and_distinct
    rcases List.mem_cons.1 hn with heq | hn
    · exact (husable (.app, names.app) (by simp [ChosenNames.parts])).2 heq.symm
    · have heq := List.mem_singleton.1 hn
      exact (husable (.root, names.root) (by simp [ChosenNames.parts])).2 heq.symm

/-! ### The names that a definition mentions -/

/-- Every name that a known type mentions is one of a known alias, or of arbitrary JSON. -/
theorem settles_of_mentions {e : TypeExpr} (h : s.Known e) {n : String}
    (hn : e.mentions n = true) : s.Settles n := by
  obtain ⟨p, hp, hmentioned⟩ := mentions_iff.1 hn
  obtain ⟨hfits, hresolved⟩ := h p hp
  cases p with
  | «alias» name definition =>
    obtain rfl := Option.some.inj hmentioned
    by_cases hjson : name = jsonValueName
    · exact .inl hjson
    · exact Session.settles_of_knows (hfits.bound name definition rfl hjson)
  | reference name =>
    obtain rfl := Option.some.inj hmentioned
    exact hresolved name rfl
  | _ => cases hmentioned

/-- What is inside a binding of a file is inside a type of the module. -/
theorem exists_type_of_mem_bindings {b : String × TypeExpr} {p : TypeExpr}
    (hb : b ∈ bindings names d) (hp : p ∈ b.2.preorder) : ∃ e ∈ d.types, p ∈ e.preorder := by
  rcases List.mem_append.1 hb with hb | hb
  · obtain ⟨e, he, hmem⟩ := preorder_of_mem_tops hb
    exact ⟨e, he, hmem hp⟩
  · obtain ⟨e, he, hmem⟩ := List.mem_flatMap.1 hb
    refine ⟨e, he, mem_preorder_trans ?_ (mem_aliases.1 hmem)⟩
    exact mem_preorder_iff.2 (.inr ⟨b.2, List.mem_cons_self, hp⟩)

/-- A name that a known definition mentions is bound in the file. -/
theorem mem_names_of_mentions (h : Assembled names d f s) {name n : String} {definition : TypeExpr}
    (hD : s.Knows name definition) (hn : definition.mentions n = true) :
    n ∈ f.declarations.map (·.name) := by
  rw [names_eq h, List.mem_append]
  rcases settles_of_mentions (everywhere_alias.1 (h.known_of_knows hD)).2 hn with rfl | hbound
  · -- A mention of arbitrary JSON inside a definition is one inside a type of the module.
    refine .inr (mem_jsonNames.2 ⟨rfl, ?_⟩)
    obtain ⟨p, hp, hmentioned⟩ := mentions_iff.1 hn
    obtain ⟨e, he, hpe⟩ := exists_type_of_mem_bindings (h.mem_bindings hD) hp
    exact ⟨e, he, mentions_iff.2 ⟨p, hpe, hmentioned⟩⟩
  · exact .inl ((mem_names_iff h).2 (Option.isSome_iff_exists.1 hbound))

/-- Every declaration of a file is the one of a known alias, or that of arbitrary JSON. -/
theorem mem_declarations (h : Assembled names d f s) {b : Declaration} (hb : b ∈ f.declarations) :
    (∃ name definition, s.Knows name definition ∧ b = declaration (name, definition)) ∨
      b = ⟨jsonValueName, jsonValueDeclaration⟩ := by
  rw [h.declarations, List.mem_append, List.mem_append] at hb
  -- Declared at the top level, put in a place, or that of arbitrary JSON.
  rcases hb with (hb | hb) | hb
  · obtain ⟨a, ha, rfl⟩ := List.mem_map.1 hb
    exact .inl ⟨a.1, a.2, h.knows_top ha, rfl⟩
  · obtain ⟨place, hplace, rfl⟩ := List.mem_map.1 hb
    obtain ⟨D, hD, htext⟩ := h.session.placed.texts place hplace
    exact .inl ⟨place.1, D, hD, by rw [htext]; rfl⟩
  · unfold jsonValueDeclarations at hb
    split at hb
    · exact .inr (List.mem_singleton.1 hb)
    · exact absurd hb List.not_mem_nil

/-- What follows the name in a declaration is no part of it. -/
theorem exists_definitionText (e : TypeExpr) : ∃ rest, e.definitionText = " =" ++ rest := by
  have hrecord : " = \x7b\n" = " =" ++ " \x7b\n" := rfl
  have hinline : " = " = " =" ++ " " := rfl
  -- The three forms of a definition have their beginning in common.
  unfold definitionText
  split
  · exact ⟨_, rfl⟩
  · rw [hrecord, String.append_assoc, String.append_assoc]
    exact ⟨_, rfl⟩
  · rw [hinline, String.append_assoc]
    exact ⟨_, rfl⟩

theorem begins_declaration (a : String × TypeExpr) : Begins (declaration a) := by
  obtain ⟨rest, hrest⟩ := exists_definitionText a.2
  refine ⟨rest ++ ";", ?_⟩
  show "type " ++ a.1 ++ a.2.definitionText ++ ";" = _
  rw [hrest, ← String.append_assoc, ← String.append_assoc]
  rfl

theorem begins_jsonValue : Begins ⟨jsonValueName, jsonValueDeclaration⟩ := by
  refine ⟨" string | number | boolean | null | " ++ jsonValueName ++ "[] | \x7b [key: string]: " ++
    jsonValueName ++ " \x7d;", ?_⟩
  decide +kernel

theorem Begins.ne_empty {b : Declaration} (h : Begins b) : b.text ≠ "" := by
  obtain ⟨rest, htext⟩ := h
  intro hempty
  have hchars := congrArg String.toList (htext.symm.trans hempty)
  simp only [String.toList_append, List.append_assoc] at hchars
  cases hchars

theorem begins_of_mem (h : Assembled names d f s) {b : Declaration} (hb : b ∈ f.declarations) :
    Begins b := by
  rcases mem_declarations h hb with ⟨name, definition, -, rfl⟩ | rfl
  · exact begins_declaration _
  · exact begins_jsonValue

/-- **A declaration file is closed.** No name is bound twice, and none that the wrapper binds. Every
declaration has a text that begins by binding its name, and stands for an alias of the module's
types or for arbitrary JSON; every name that its definition mentions, at any depth, is bound by
exactly one declaration. -/
theorem assemble_closed (h : assemble names d = .ok f) : Closed names d f := by
  obtain ⟨s, hs⟩ := assemble_sound h
  have hnodup := nodup_names hs
  have hcount : ∀ n ∈ f.declarations.map (·.name), (f.declarations.map (·.name)).count n = 1 := by
    intro n hn
    rw [hnodup.count, if_pos hn]
  refine ⟨hnodup, fun n hn => not_mem_names hs hn, fun b hb => (begins_of_mem hs hb).ne_empty,
    fun b hb => begins_of_mem hs hb, fun b hb => ?_⟩
  · rcases mem_declarations hs hb with ⟨name, definition, hknows, rfl⟩ | rfl
    · refine ⟨definition, .alias (hs.mem_bindings hknows), fun n hn => ?_⟩
      exact hcount n (mem_names_of_mentions hs hknows hn)
    · refine ⟨.reference jsonValueName, .json, fun n hn => ?_⟩
      obtain ⟨p, hp, hmentioned⟩ := mentions_iff.1 hn
      obtain rfl := List.mem_singleton.1 hp
      obtain rfl := Option.some.inj hmentioned
      exact hcount _ (List.mem_map_of_mem hb)

/-- A module whose messages carry its flags, and whose flags hold an alias inside an alias. -/
def nested : Descriptor :=
  let tree := TypeExpr.alias "Tree" (.record [("below", .listOf (.reference "Tree"))])
  let flags := TypeExpr.record [("forest", .alias "Forest" (.listOf tree)), ("rest", .jsonValue)]
  { moduleName := "Main"
    outbound := .taggedUnion [("set", [("to", .alias "Flags" flags)]), ("grow", [("by", tree)])]
    flags := some (.alias "Flags" flags) }

theorem assemble_closed_nested :
    ∃ f, assemble .standard nested = .ok f ∧ Closed .standard nested f :=
  ⟨_, rfl, assemble_closed rfl⟩

end BoundaryTypes.DeclarationFile
