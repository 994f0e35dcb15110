/-
  `Capture` — what the type names of the wrapper stand for.

  The wrapper mentions four type names: those of the messages, of the flags and of the app,
  and the global name of an element of the page. The file binds a name when a reader finds it
  in a declaration or in the interface of the app; a constant binds a value and no type. A
  mention is captured when something else than what the wrapper means has the name.

  The names of the messages, the flags and the app cannot be taken by an alias, since no file
  binds a name twice and the app's name is reserved. So only a name that is read as another
  one captures them. The name of an element is not reserved, and any alias may take it
  (`generate_captures`).
-/
import BoundaryTypes.Proofs.DeclarationFile.Tokens
import Mathlib.Data.List.Nodup

namespace BoundaryTypes.DeclarationFile

open Outcome TypeExpr

variable {names : DeclarationNames} {d : Descriptor} {f : DeclarationFile} {s : Session}
  {m n : String}

/-! ### What a file binds -/

/-- What a type name stands for in a file that binds it. -/
inductive Meaning where
  /-- The type of an alias, by its declaration. -/
  | declared (text : String)
  /-- The interface of a running app. -/
  | app
deriving DecidableEq

/-- The type names that a reader finds in the declarations and in the interface of a file. -/
def binders (f : DeclarationFile) : List (String × Meaning) :=
  f.declarations.map (fun b =>
    (readToken (b.text.toList.drop "type ".toList.length), .declared b.text)) ++
  [(readToken ((interfaceText f.names.app f.names.message).toList.drop
    "export interface ".toList.length), .app)]

/-- What a name may stand for to a reader of a file: nothing, if the file does not bind it. -/
def meanings (f : DeclarationFile) (name : String) : List Meaning :=
  (f.binders.filter fun b => b.1 = readToken name.toList).map (·.2)

/-- The global type of an element of the page. -/
def elementType : String := "HTMLElement"

/-- The type names of the wrapper stand for what the wrapper means. -/
structure Uncaptured (names : DeclarationNames) (d : Descriptor) (f : DeclarationFile) : Prop where
  message : f.meanings names.message = [.declared (d.outbound.declarationText names.message)]
  /-- The wrapper mentions the name of the flags if there are any. -/
  flags : ∀ flags ∈ d.flags, f.flagsType = names.flags ∧ f.meanings names.flags =
    [.declared ((unwrapAlias names.flags flags).declarationText names.flags)]
  app : f.meanings names.app = [.app]
  element : f.meanings elementType = []

/-! ### Names that are read alike -/

/-- A reader takes two names for the same. -/
def Alike (m n : String) : Prop := readToken m.toList = readToken n.toList

instance : DecidableRel Alike := fun m n =>
  inferInstanceAs (Decidable (readToken m.toList = readToken n.toList))

/-- Names that are read as they are, are alike only if they are equal. -/
theorem eq_of_alike (hm : isToken m = true) (hn : isToken n = true) (h : Alike m n) : m = n := by
  rw [Alike, readToken_of_isToken hm, readToken_of_isToken hn] at h
  exact h

/-- The type names of a file, as they are printed. -/
def printed (f : DeclarationFile) : List (String × Meaning) :=
  f.declarations.map (fun b => (b.name, .declared b.text)) ++ [(f.names.app, .app)]

/-- A reader finds in an interface the name of the app. -/
theorem readToken_interfaceText (app message : String) :
    readToken ((interfaceText app message).toList.drop "export interface ".toList.length) =
      readToken app.toList := by
  unfold interfaceText
  simp only [String.append_assoc]
  rw [String.toList_append, List.drop_left, String.toList_append]
  refine readToken_append ?_
  rw [String.toList_append]
  rfl

theorem binders_eq (h : Assembled names d f s) :
    f.binders = f.printed.map fun b => (readToken b.1.toList, b.2) := by
  rw [binders, printed, List.map_append, List.map_map, readToken_interfaceText]
  refine congrArg (· ++ _) (List.map_congr_left fun b hb => ?_)
  rw [readToken_declaration h hb]
  rfl

theorem meanings_eq (h : Assembled names d f s) (name : String) :
    f.meanings name = (f.printed.filter fun b => Alike b.1 name).map (·.2) := by
  rw [meanings, binders_eq h, List.filter_map, List.map_map]
  rfl

/-- An entry is the only one that passes a test of keys if and only if no other key passes it. -/
theorem map_filter_eq_singleton {α β : Type} {entries : List (α × β)} {p : α → Prop}
    [DecidablePred p] {a : α} {b : β} (hnodup : (entries.map (·.1)).Nodup)
    (hmem : (a, b) ∈ entries) (ha : p a) :
    (entries.filter fun c => p c.1).map (·.2) = [b] ↔
      ∀ k ∈ entries.map (·.1), p k → k = a := by
  have hentry : (a, b) ∈ entries.filter fun c => p c.1 :=
    List.mem_filter.2 ⟨hmem, decide_eq_true ha⟩
  rw [List.forall_mem_map]
  constructor
  · intro h c hc hp
    have hfound : c ∈ entries.filter fun c => p c.1 := List.mem_filter.2 ⟨hc, decide_eq_true hp⟩
    obtain ⟨e, he, -⟩ := List.map_eq_singleton_iff.1 h
    rw [he, List.mem_singleton] at hfound hentry
    rw [hfound, ← hentry]
  · intro h
    have hsame : ∀ c ∈ entries.filter fun c => p c.1, c = (a, b) := by
      intro c hc
      obtain ⟨hc, hp⟩ := List.mem_filter.1 hc
      exact List.inj_on_of_nodup_map hnodup hc hmem (h c hc (of_decide_eq_true hp))
    -- What is left is copies of one entry, none of them twice, and there is one.
    have hnodup := (List.Nodup.of_map _ hnodup).filter fun c => p c.1
    have hlength := List.nodup_replicate.1 (List.eq_replicate_of_mem hsame ▸ hnodup)
    obtain ⟨e, he⟩ := List.length_eq_one_iff.1
      (Nat.le_antisymm hlength (List.length_pos_of_mem hentry))
    rw [he, List.mem_singleton] at hentry
    rw [he, ← hentry]
    rfl

/-! ### When a mention is captured -/

/-- The names of the types that a file binds. -/
def typeNames (f : DeclarationFile) : List String :=
  f.declarations.map (·.name) ++ [f.names.app]

theorem map_fst_printed (f : DeclarationFile) : f.printed.map (·.1) = f.typeNames := by
  rw [printed, List.map_append, List.map_map]
  rfl

theorem mem_boundNames_of_mem_typeNames (h : n ∈ f.typeNames) : n ∈ f.boundNames := by
  rw [boundNames, ← List.singleton_append, ← List.append_assoc]
  exact List.mem_append_left _ h

theorem nodup_typeNames (h : assemble names d = .ok f) : f.typeNames.Nodup := by
  have hnodup := (boundNames_spec h).2
  rw [boundNames, ← List.singleton_append, ← List.append_assoc] at hnodup
  exact (List.nodup_append.1 hnodup).1

/-- A bound name stands for its own meaning alone if no other bound name is read like it. -/
theorem meanings_eq_singleton (hf : assemble names d = .ok f) (h : Assembled names d f s)
    {meaning : Meaning} (hmem : (m, meaning) ∈ f.printed) :
    f.meanings m = [meaning] ↔ ∀ n ∈ f.typeNames, Alike n m → n = m := by
  have hnodup : (f.printed.map (·.1)).Nodup := map_fst_printed f ▸ nodup_typeNames hf
  rw [meanings_eq h, ← map_fst_printed]
  exact map_filter_eq_singleton (p := fun n => Alike n m) hnodup hmem rfl

theorem meanings_eq_nil (h : Assembled names d f s) :
    f.meanings n = [] ↔ ∀ m ∈ f.typeNames, ¬ Alike m n := by
  rw [meanings_eq h, List.map_eq_nil_iff, List.filter_eq_nil_iff, ← map_fst_printed,
    List.forall_mem_map]
  simp only [decide_eq_true_eq]

/-- The names of the wrapper that its file binds. -/
def wrapperNames (names : DeclarationNames) (d : Descriptor) : List String :=
  (tops names d).map (·.1) ++ [names.app]

theorem mem_printed_of_mem_tops (h : Assembled names d f s) {b : String × TypeExpr}
    (hb : b ∈ tops names d) : (b.1, .declared (b.2.declarationText b.1)) ∈ f.printed := by
  have hmem : declaration b ∈ f.declarations := by
    rw [h.declarations, List.append_assoc]
    exact List.mem_append_left _ (List.mem_map_of_mem hb)
  exact List.mem_append_left _ (List.mem_map_of_mem hmem)

theorem mem_printed_app (hf : assemble names d = .ok f) : (names.app, .app) ∈ f.printed := by
  rw [printed, (names_of_assemble hf).1]
  exact List.mem_append_right _ List.mem_cons_self

theorem mem_typeNames_of_mem_wrapperNames (hf : assemble names d = .ok f)
    (h : Assembled names d f s) (hm : m ∈ wrapperNames names d) : m ∈ f.typeNames := by
  rw [← map_fst_printed]
  rcases List.mem_append.1 hm with hm | hm
  · obtain ⟨b, hb, rfl⟩ := List.mem_map.1 hm
    exact List.mem_map_of_mem (mem_printed_of_mem_tops h hb)
  · rw [List.mem_singleton.1 hm]
    exact List.mem_map_of_mem (mem_printed_app hf)

/-- What the wrapper mentions is captured if and only if a bound name is read as the name of an
element, or as a name of the wrapper that it is not. -/
theorem uncaptured_iff (hf : assemble names d = .ok f) (h : Assembled names d f s) :
    Uncaptured names d f ↔ (∀ n ∈ f.typeNames, ¬ Alike n elementType) ∧
      ∀ m ∈ wrapperNames names d, ∀ n ∈ f.typeNames, Alike n m → n = m := by
  -- The two names at the top level are dealt with alike.
  have htops : ∀ b ∈ tops names d, f.meanings b.1 = [.declared (b.2.declarationText b.1)] ↔
      ∀ n ∈ f.typeNames, Alike n b.1 → n = b.1 :=
    fun b hb => meanings_eq_singleton hf h (mem_printed_of_mem_tops h hb)
  rw [wrapperNames, List.forall_mem_append, List.forall_mem_map, List.forall_mem_singleton,
    ← meanings_eq_nil h, ← meanings_eq_singleton hf h (mem_printed_app hf)]
  constructor
  · intro hfree
    refine ⟨hfree.element, fun b hb => (htops b hb).1 ?_, hfree.app⟩
    rcases List.mem_cons.1 hb with rfl | hb
    · exact hfree.message
    · obtain ⟨flags, hflags, rfl⟩ := List.mem_map.1 hb
      exact (hfree.flags flags (Option.mem_toList.1 hflags)).2
  · rintro ⟨helement, hall, happ⟩
    refine ⟨?_, fun flags hflags => ⟨?_, ?_⟩, happ, helement⟩
    · exact (htops _ List.mem_cons_self).2 (hall _ List.mem_cons_self)
    · rw [(names_of_assemble hf).2.2, if_pos (Option.isSome_of_mem hflags)]
    · have hb : (names.flags, unwrapAlias names.flags flags) ∈ tops names d :=
        List.mem_cons_of_mem _ (List.mem_map_of_mem (Option.mem_toList.2 hflags))
      exact (htops _ hb).2 (hall _ hb)

/-- The types that a file binds are the interface of the app, the module's aliases, and arbitrary
JSON. -/
theorem mem_typeNames_cases (hf : assemble names d = .ok f) (h : Assembled names d f s)
    (hn : n ∈ f.typeNames) :
    n = names.app ∨ (∃ D, (n, D) ∈ bindings names d) ∨ n = jsonValueName := by
  rw [typeNames, (names_of_assemble hf).1, names_eq h, List.mem_append, List.mem_append,
    List.mem_singleton] at hn
  rcases hn with (hn | hn) | hn
  · obtain ⟨D, hD⟩ := (mem_names_iff h).1 hn
    exact .inr (.inl ⟨D, h.mem_bindings hD⟩)
  · exact .inr (.inr (mem_jsonNames.1 hn).1)
  · exact .inl hn

theorem mem_typeNames_of_mem_bindings (h : Assembled names d f s)
    (hunion : d.outbound.isUnion = true) {a : String × TypeExpr} (ha : a ∈ bindings names d)
    (hjson : a.1 ≠ jsonValueName) : a.1 ∈ f.typeNames := by
  have hknows : s.Knows a.1 a.2 := knows_of_mem_bindings h hunion hjson ha
  rw [typeNames, names_eq h]
  exact List.mem_append_left _ (List.mem_append_left _ ((mem_names_iff h).2 ⟨_, hknows⟩))

/-- When no type name ends a line, only the name of an element is captured: by an alias of that
name, or by the app. -/
theorem uncaptured_iff_of_not_endsLine (hf : assemble names d = .ok f)
    (h : Assembled names d f s) (hends : ∀ n ∈ f.typeNames, ¬ EndsLine n) :
    Uncaptured names d f ↔
      names.app ≠ elementType ∧ ∀ a ∈ bindings names d, a.1 ≠ elementType := by
  obtain ⟨-, hunion, -⟩ := assemble_eq_ok hf
  -- Such names are read as they are printed, so being read alike is being equal.
  have htoken : ∀ n ∈ f.typeNames, isToken n = true := by
    intro n hn
    have htype := ((boundNames_spec hf).1 n (mem_boundNames_of_mem_typeNames hn)).1
    exact (isToken_iff (isIdentifier_of_isTypeName htype)).2 (hends n hn)
  have helement : isToken elementType = true := by decide
  have happ : names.app ∈ wrapperNames names d := List.mem_append_right _ List.mem_cons_self
  rw [uncaptured_iff hf h]
  constructor
  · rintro ⟨hfree, -⟩
    refine ⟨fun heq => ?_, fun a ha heq => ?_⟩
    · exact hfree _ (mem_typeNames_of_mem_wrapperNames hf h happ) (heq ▸ rfl)
    · have hjson : a.1 ≠ jsonValueName := heq ▸ by decide
      exact hfree _ (mem_typeNames_of_mem_bindings h hunion ha hjson) (heq ▸ rfl)
  · rintro ⟨hne, hfree⟩
    refine ⟨fun n hn halike => ?_, fun m hm n hn halike => ?_⟩
    · obtain rfl := eq_of_alike (htoken n hn) helement halike
      rcases mem_typeNames_cases hf h hn with heq | ⟨D, hD⟩ | heq
      · exact hne heq.symm
      · exact hfree _ hD rfl
      · exact absurd heq (by decide)
    · exact eq_of_alike (htoken n hn)
        (htoken m (mem_typeNames_of_mem_wrapperNames hf h hm)) halike

/-- **Captured names.** In a file that is generated, the names of the messages, the flags and the
app stand for what the wrapper means by them, and the name of an element for the global type, if
and only if no type name of the file is read as that of an element, or as one of the other three
without being that name. When none of its type names ends in a line feed, that is to say that
neither the app nor an alias has the name of an element. -/
theorem generate_captures {text : String} (h : generateDeclaration names d = .ok text) :
    ∃ f, assemble names d = .ok f ∧ f.render = text ∧
      (Uncaptured names d f ↔ (∀ n ∈ f.typeNames, ¬ Alike n elementType) ∧
        ∀ m ∈ wrapperNames names d, ∀ n ∈ f.typeNames, Alike n m → n = m) ∧
      ((∀ n ∈ f.typeNames, ¬ EndsLine n) → (Uncaptured names d f ↔
        names.app ≠ elementType ∧ ∀ a ∈ bindings names d, a.1 ≠ elementType)) := by
  obtain ⟨f, hf, rfl⟩ := map_eq_ok.1 h
  obtain ⟨s, hs⟩ := assemble_sound hf
  exact ⟨f, hf, rfl, uncaptured_iff hf hs, uncaptured_iff_of_not_endsLine hf hs⟩

theorem generate_captures_nested :
    ∃ text f, generateDeclaration .standard nested = .ok text ∧ assemble .standard nested = .ok f ∧
      Uncaptured .standard nested f := by
  have htext : ∃ text, generateDeclaration .standard nested = .ok text := ⟨_, rfl⟩
  obtain ⟨text, htext⟩ := htext
  obtain ⟨f, hf, -, -, hclean⟩ := generate_captures htext
  refine ⟨text, f, htext, hf, (hclean ?_).2 (by decide +kernel)⟩
  cases hf
  decide +kernel

/-- A module that sends an alias with the name of an element. -/
def elementAlias : Descriptor where
  moduleName := "Main"
  outbound := .taggedUnion [("a", [("el", .alias elementType (.primitive .string))])]
  flags := none

/-- A file is made, and to its reader the app starts in a text instead of an element. -/
theorem captures_elementAlias :
    ∃ f, assemble .standard elementAlias = .ok f ∧
      f.meanings elementType = [.declared "type HTMLElement = string;"] ∧
      ¬ Uncaptured .standard elementAlias f := by
  have hmeaning : ∃ f, assemble .standard elementAlias = .ok f ∧
      f.meanings elementType = [.declared "type HTMLElement = string;"] :=
    ⟨_, rfl, by decide +kernel⟩
  obtain ⟨f, hf, hmeaning⟩ := hmeaning
  refine ⟨f, hf, hmeaning, fun h => ?_⟩
  cases hmeaning.symm.trans h.element

end BoundaryTypes.DeclarationFile
