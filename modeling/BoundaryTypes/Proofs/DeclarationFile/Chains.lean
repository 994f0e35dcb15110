/-
  `Chains` — bindings that only rename.

  A declaration `type A = B;` says nothing but what `B` is. A reader follows such declarations
  to one that says more. Of aliases that are written inside each other he finds the end, since
  definitions are finite. A reference may lead him back: it names an alias that it is a part of
  (`Session.Enclosed`). If the definition of that alias says more than a name, he is at an end.
  If it is only names down to a reference, then it is the very reference that he came from, and
  he goes round for ever. So a file can be read unless some alias is nothing but its own name,
  by way of any number of other aliases (`generate_unwinds`).
-/
import BoundaryTypes.Proofs.DeclarationFile.Order
import BoundaryTypes.Proofs.DeclarationFile.Tokens
import BoundaryTypes.Proofs.Session.Enclosure
import Mathlib.Logic.Relation

namespace BoundaryTypes

open Outcome Relation

/-! ### Definitions that are only names -/

namespace TypeExpr

/-- The name that a type refers to in the end, when it is aliases inside each other around a
reference. The type of arbitrary JSON is not opened: its declaration says more. -/
def lastName? : TypeExpr → Option String
  | .alias n definition => if n = jsonValueName then none else definition.lastName?
  | .reference n => some n
  | _ => none

variable {e : TypeExpr} {m n r : String}

theorem lastName?_alias (hn : n ≠ jsonValueName) :
    (TypeExpr.alias n e).lastName? = e.lastName? := if_neg hn

/-- The only reference in a definition that is only names is the last one. -/
theorem eq_of_reference_mem (he : e.lastName? = some r) (hm : .reference m ∈ e.preorder) :
    m = r := by
  induction e with
  | reference name =>
    obtain rfl := Option.some.inj he
    exact TypeExpr.reference.inj (List.mem_singleton.1 hm)
  | «alias» name definition ih =>
    rcases List.mem_cons.1 hm with hself | hm
    · cases hself
    · by_cases hjson : name = jsonValueName
      · rw [lastName?, if_pos hjson] at he
        cases he
      · exact ih (lastName?_alias hjson ▸ he) hm
  | _ => cases he

/-- A type with a name of its own is declared as that name. -/
theorem definitionText_of_mentioned? (h : e.mentioned? = some m) :
    e.definitionText = " = " ++ m := by
  cases e with
  | «alias» n definition =>
    obtain rfl := Option.some.inj h
    rfl
  | reference n =>
    obtain rfl := Option.some.inj h
    rfl
  | _ => cases h

/-- A type name has no other characters than those of a word. -/
theorem not_mem_of_isTypeName {c : Char} (hm : isTypeName m = true)
    (hc : (isIdentifierPart c || c == '\n') = false) : c ∉ m.toList := by
  intro hmem
  have hword := (isIdentifier_chars (DeclarationFile.isIdentifier_of_isTypeName hm)).2 c hmem
  rw [hc] at hword
  cases hword

/-- No other type is declared as a mere name: what it shows is reserved or has a sign in it. -/
theorem mentioned?_of_definitionText (hoptional : e.isOptional = false)
    (hm : isTypeName m = true) (h : e.definitionText = " = " ++ m) : e.mentioned? = some m := by
  have hfree : m ∉ reservedTypeNames := by
    intro hmem
    rw [isTypeName_eq_false_of_mem hmem] at hm
    cases hm
  -- Words are reserved; what is no word begins with a sign or has one in it.
  cases e with
  | «alias» n definition => exact congrArg some ((String.append_right_inj _).1 h)
  | reference n => exact congrArg some ((String.append_right_inj _).1 h)
  | primitive kind =>
    obtain rfl : kind.word = m := (String.append_right_inj _).1 h
    exact absurd (by cases kind <;> decide) hfree
  | literal value =>
    obtain rfl : Json.quote value = m := (String.append_right_inj _).1 h
    refine absurd ?_ (not_mem_of_isTypeName hm (c := '"') (by decide))
    rw [Json.toList_quote]
    exact List.mem_cons_self
  | listOf e =>
    obtain rfl : (listOf e).inline = m := (String.append_right_inj _).1 h
    refine absurd ?_ (not_mem_of_isTypeName hm (c := ']') (by decide))
    rw [inline_listOf]
    split <;> simp
  | dictOf e =>
    obtain rfl : (dictOf e).inline = m := (String.append_right_inj _).1 h
    refine absurd ?_ (not_mem_of_isTypeName hm (c := '\x7b') (by decide))
    rw [inline_dictOf]
    simp
  | optional e => cases hoptional
  | record fields =>
    cases fields with
    | nil =>
      obtain rfl : "\x7b\x7d" = m := (String.append_right_inj _).1 h
      exact absurd (by decide) (not_mem_of_isTypeName hm (c := '\x7b') (by decide))
    | cons f fields =>
      have hopening : (" = " ++ m).toList = " = \x7b\n".toList ++
          (fieldLines (f :: fields) ++ "\x7d").toList := by
        rw [← h, ← String.toList_append, ← String.append_assoc]
        rfl
      rw [String.toList_append] at hopening
      have hchars : m.toList = '\x7b' :: '\n' :: (fieldLines (f :: fields) ++ "\x7d").toList :=
        (List.append_right_inj " = ".toList).1 hopening
      refine absurd ?_ (not_mem_of_isTypeName hm (c := '\x7b') (by decide))
      rw [hchars]
      exact List.mem_cons_self
  | union variants =>
    cases variants with
    | nil =>
      obtain rfl : "never" = m := (String.append_right_inj _).1 h
      exact absurd (by decide) hfree
    | cons v variants =>
      -- A line feed follows the sign, where a name would come after a blank.
      have hfeed := congrArg (fun text : String => text.toList[2]?) h
      rw [definitionText, variantLines, variantTexts] at hfeed
      simp [String.toList_append] at hfeed

end TypeExpr

namespace DeclarationFile

open TypeExpr

variable {names : DeclarationNames} {d : Descriptor} {f : DeclarationFile} {s s' : Session}
  {n m r : String} {D : TypeExpr}

/-! ### References of a file are enclosed -/

theorem enclosed_of_declareAll {todo done : List (String × TypeExpr)} {top : List Declaration}
    (hs : Session.Enclosed [] s) (htodo : DeclarableAll done todo)
    (h : declareAll todo s = .ok top s') : Session.Enclosed [] s' := by
  induction todo generalizing done s top with
  | nil =>
    obtain ⟨-, rfl⟩ := pure_run_eq_ok.1 h
    exact hs
  | cons b rest ih =>
    obtain ⟨text, t, others, htext, hothers, -⟩ := declareAll_cons_iff.1 h
    exact ih (hs.declare htodo.1.1 htext) htodo.2 hothers

/-- A file that is made is assembled from a session whose references are enclosed. -/
theorem assemble_enclosed (h : assemble names d = .ok f) :
    ∃ s, Assembled names d f s ∧ Session.Enclosed [] s := by
  obtain ⟨top, s, htop, hdeclarations⟩ := assemble_run h
  obtain ⟨hsession, rfl⟩ := declaring_of_run htop
  have henclosed := enclosed_of_declareAll (Session.enclosed_empty _)
    (declarableAll_tops names d) htop
  exact ⟨s, ⟨hdeclarations, hsession⟩, henclosed⟩

/-! ### Bindings that rename -/

/-- A file declares a name as nothing but another name that it binds. -/
def Renames (f : DeclarationFile) (n m : String) : Prop :=
  ⟨n, "type " ++ n ++ " = " ++ m ++ ";"⟩ ∈ f.declarations ∧ m ∈ f.declarations.map (·.name)

/-- From every bound name, renaming leads to a binding that says more than a name, and never back
to where it began. -/
structure Unwinds (f : DeclarationFile) : Prop where
  ends : ∀ n ∈ f.declarations.map (·.name),
    ∃ m, ReflTransGen f.Renames n m ∧ ∀ k, ¬ f.Renames m k
  acyclic : ∀ n, ¬ TransGen f.Renames n n

theorem declaration_mem (h : Assembled names d f s) (hD : s.Knows n D) :
    declaration (n, D) ∈ f.declarations := by
  have hbound : (n, D) ∈ tops names d ++ placedAliases s := (mem_bound_iff h).2 hD
  rw [h.declarations, ← map_declaration_placedAliases h.session.placed, ← List.map_append]
  exact List.mem_append_left _ (List.mem_map_of_mem hbound)

theorem isOptional_of_knows (h : Assembled names d f s) (hD : s.Knows n D) :
    D.isOptional = false :=
  wellShaped_alias.1 (h.known_of_knows hD).self.1.shape

/-- A name is declared as another one when that is what its definition mentions itself. -/
theorem renames_iff (h : Assembled names d f s) :
    f.Renames n m ↔ ∃ D, s.Knows n D ∧ D.mentioned? = some m := by
  constructor
  · rintro ⟨hmem, hm⟩
    have hm : isTypeName m = true := isTypeName_of_mem_declarations h hm
    rcases mem_declarations h hmem with ⟨name, D, hD, heq⟩ | heq
    · obtain ⟨rfl, htext⟩ := Declaration.mk.inj heq
      refine ⟨D, hD, mentioned?_of_definitionText (isOptional_of_knows h hD) hm ?_⟩
      have htext := (String.append_left_inj ";").1 htext
      rw [String.append_assoc] at htext
      exact ((String.append_right_inj _).1 htext).symm
    · -- The declaration of arbitrary JSON has a sign in it that no name has.
      obtain ⟨rfl, htext⟩ := Declaration.mk.inj heq
      have hbar : '|' ∈ ("type " ++ jsonValueName ++ " = " ++ m ++ ";").toList := by
        rw [htext]
        decide +kernel
      have hbar : '|' ∈ m.toList := by simpa [jsonValueName] using hbar
      exact absurd hbar (not_mem_of_isTypeName hm (by decide))
  · rintro ⟨D, hD, hm⟩
    refine ⟨?_, mem_names_of_mentions h hD ?_⟩
    · have hmem := declaration_mem h hD
      rw [declaration, declarationText, definitionText_of_mentioned? hm, ← String.append_assoc]
        at hmem
      exact hmem
    · exact mentions_iff.2 ⟨D, mem_preorder_self D, hm⟩

/-- A name is renamed in one way. -/
theorem rightUnique_renames (h : Assembled names d f s) : Relator.RightUnique f.Renames := by
  intro n m k hm hk
  obtain ⟨D, hD, hm⟩ := (renames_iff h).1 hm
  obtain ⟨D', hD', hk⟩ := (renames_iff h).1 hk
  obtain rfl := hD.unique hD'
  exact Option.some.inj (hm.symm.trans hk)

/-- A name from which renaming comes to an end is on no cycle. -/
theorem not_transGen_self (h : Assembled names d f s) (hpath : ReflTransGen f.Renames n m)
    (hend : ∀ k, ¬ f.Renames m k) : ¬ TransGen f.Renames n n := by
  induction hpath using ReflTransGen.head_induction_on with
  | refl =>
    intro hcycle
    obtain ⟨k, hk, -⟩ := TransGen.head'_iff.1 hcycle
    exact hend k hk
  | head hstep _ ih =>
    intro hcycle
    -- The cycle begins with the only step there is, so it is one of the next name, too.
    obtain ⟨k, hk, hback⟩ := TransGen.head'_iff.1 hcycle
    obtain rfl := rightUnique_renames h hk hstep
    exact ih (TransGen.tail' hback hstep)

/-! ### Where renaming leads -/

/-- Arbitrary JSON is not renamed. -/
theorem not_renames_jsonValue (h : Assembled names d f s) (k : String) :
    ¬ f.Renames jsonValueName k := by
  intro hk
  obtain ⟨D, hD, -⟩ := (renames_iff h).1 hk
  exact h.session.placed.json D hD

theorem knows_of_knows_alias (h : Assembled names d f s) (hm : m ≠ jsonValueName)
    (hD : s.Knows n (.alias m D)) : s.Knows m D :=
  (everywhere_alias.1 (h.known_of_knows hD)).2.self.1.bound m D rfl hm

/-- Renaming leads through the aliases of a definition: to an end, or to an alias that is defined by
a reference if the definition is only names down to that reference. -/
theorem exists_last (h : Assembled names d f s) (hD : s.Knows n D) :
    (D.lastName? = none ∧ ∃ m, ReflTransGen f.Renames n m ∧ ∀ k, ¬ f.Renames m k) ∨
      ∃ r, D.lastName? = some r ∧ ∃ m, ReflTransGen f.Renames n m ∧ s.Knows m (.reference r) := by
  induction D generalizing n with
  | reference r => exact .inr ⟨r, rfl, n, .refl, hD⟩
  | «alias» m definition ih =>
    have hstep : f.Renames n m := (renames_iff h).2 ⟨_, hD, rfl⟩
    by_cases hm : m = jsonValueName
    · subst hm
      exact .inl ⟨if_pos rfl, _, .single hstep, not_renames_jsonValue h⟩
    · rw [lastName?_alias hm]
      rcases ih (knows_of_knows_alias h hm hD) with ⟨hnone, k, hpath, hend⟩ | ⟨r, hr, k, hpath, hk⟩
      · exact .inl ⟨hnone, k, .head hstep hpath, hend⟩
      · exact .inr ⟨r, hr, k, .head hstep hpath, hk⟩
  | _ =>
    -- The definition has no name of its own, so the alias is not renamed.
    refine .inl ⟨rfl, n, .refl, fun k hk => ?_⟩
    obtain ⟨D, hD', hmentioned⟩ := (renames_iff h).1 hk
    obtain rfl := hD.unique hD'
    cases hmentioned

/-- If no alias is nothing but its own name, renaming comes to an end from every known alias. -/
theorem exists_end (h : Assembled names d f s) (henclosed : Session.Enclosed [] s)
    (hlast : ∀ n D, s.Knows n D → D.lastName? ≠ some n) (hD : s.Knows n D) :
    ∃ m, ReflTransGen f.Renames n m ∧ ∀ k, ¬ f.Renames m k := by
  rcases exists_last h hD with ⟨-, hend⟩ | ⟨r, -, m, hpath, hm⟩
  · exact hend
  -- The reference leads to an alias around it, which is not only names.
  obtain ⟨E, hE, hinside⟩ := henclosed m r hm List.not_mem_nil
  have hstep : f.Renames m r := (renames_iff h).2 ⟨_, hm, rfl⟩
  rcases exists_last h hE with ⟨-, k, hpath', hend⟩ | ⟨x, hx, -⟩
  · exact ⟨k, (hpath.tail hstep).trans hpath', hend⟩
  · have hr : r ≠ jsonValueName := by
      rintro rfl
      exact h.session.placed.json E hE
    have hreference : .reference r ∈ (TypeExpr.alias r E).preorder :=
      mem_preorder_trans (List.mem_cons_of_mem _ List.mem_cons_self) hinside
    obtain rfl := eq_of_reference_mem ((lastName?_alias hr).trans hx) hreference
    exact absurd hx (hlast r E hE)

/-- A file unwinds if and only if no alias is nothing but its own name. -/
theorem unwinds_iff (h : Assembled names d f s) (henclosed : Session.Enclosed [] s)
    (hunion : d.outbound.isUnion = true) :
    f.Unwinds ↔ ∀ a ∈ bindings names d, a.1 ≠ jsonValueName → a.2.lastName? ≠ some a.1 := by
  constructor
  · rintro hunwinds ⟨n, D⟩ ha hjson hlast
    have hD : s.Knows n D := knows_of_mem_bindings h hunion hjson ha
    rcases exists_last h hD with ⟨hnone, -⟩ | ⟨r, hr, m, hpath, hm⟩
    · cases hnone.symm.trans hlast
    · obtain rfl := Option.some.inj (hr.symm.trans hlast)
      exact hunwinds.acyclic _ (TransGen.tail' hpath ((renames_iff h).2 ⟨_, hm, rfl⟩))
  · intro hlast
    have hlast : ∀ n D, s.Knows n D → D.lastName? ≠ some n := fun n D hD =>
      hlast (n, D) (h.mem_bindings hD) fun hjson => h.session.placed.json D (hjson ▸ hD)
    have hends : ∀ n ∈ f.declarations.map (·.name),
        ∃ m, ReflTransGen f.Renames n m ∧ ∀ k, ¬ f.Renames m k := by
      intro n hn
      rw [names_eq h, List.mem_append] at hn
      rcases hn with hn | hn
      · obtain ⟨D, hD⟩ := (mem_names_iff h).1 hn
        exact exists_end h henclosed hlast hD
      · obtain ⟨rfl, -⟩ := mem_jsonNames.1 hn
        exact ⟨_, .refl, not_renames_jsonValue h⟩
    refine ⟨hends, fun n hcycle => ?_⟩
    obtain ⟨m, hstep, -⟩ := TransGen.head'_iff.1 hcycle
    obtain ⟨m, hpath, hend⟩ := hends n (List.mem_map_of_mem hstep.1)
    exact not_transGen_self h hpath hend hcycle

/-- **Bindings that only rename.** In a file that is generated, following declarations that say
nothing but another bound name leads from every bound name to one that says more, and never in a
circle, if and only if no alias of the module's types, the messages and the flags included, is
defined by nothing but its own name, be it by way of other aliases. -/
theorem generate_unwinds {text : String} (h : generateDeclaration names d = .ok text) :
    ∃ f, assemble names d = .ok f ∧ f.render = text ∧
      (f.Unwinds ↔ ∀ a ∈ bindings names d, a.1 ≠ jsonValueName → a.2.lastName? ≠ some a.1) := by
  obtain ⟨f, hf, rfl⟩ := map_eq_ok.1 h
  obtain ⟨s, hs, henclosed⟩ := assemble_enclosed hf
  obtain ⟨-, hunion, -⟩ := assemble_eq_ok hf
  exact ⟨f, hf, rfl, unwinds_iff hs henclosed hunion⟩

/-- The aliases of a nested file come to an end: the flags are bound by two names. -/
theorem generate_unwinds_nested :
    ∃ text f, generateDeclaration .standard nested = .ok text ∧ assemble .standard nested = .ok f ∧
      f.Unwinds := by
  have htext : ∃ text, generateDeclaration .standard nested = .ok text := ⟨_, rfl⟩
  obtain ⟨text, htext⟩ := htext
  obtain ⟨f, hf, -, hunwinds⟩ := generate_unwinds htext
  exact ⟨text, f, htext, hf, hunwinds.2 (by decide +kernel)⟩

/-- A module whose flags are nothing but their own name. -/
def selfNamed : Descriptor where
  moduleName := "Main"
  outbound := .union []
  flags := some (.reference "Flags")

/-- A module with an alias that is its own name by way of another alias. -/
def selfNamedTwice : Descriptor where
  moduleName := "Main"
  outbound := .union []
  flags := some (.listOf (.alias "A" (.alias "B" (.reference "A"))))

/-- A file is made for both modules. In the first the flags are declared as themselves, and in the
second two aliases are declared as each other. -/
theorem renames_selfNamed :
    (∃ f, assemble .standard selfNamed = .ok f ∧ f.Renames "Flags" "Flags" ∧ ¬ f.Unwinds) ∧
      ∃ f, assemble .standard selfNamedTwice = .ok f ∧ f.Renames "A" "B" ∧ f.Renames "B" "A" ∧
        ¬ f.Unwinds := by
  have hself : ∃ f, assemble .standard selfNamed = .ok f ∧ f.Renames "Flags" "Flags" :=
    ⟨_, rfl, by decide +kernel, by decide +kernel⟩
  have htwice : ∃ f, assemble .standard selfNamedTwice = .ok f ∧ f.Renames "A" "B" ∧
      f.Renames "B" "A" :=
    ⟨_, rfl, ⟨by decide +kernel, by decide +kernel⟩, by decide +kernel, by decide +kernel⟩
  obtain ⟨f, hf, hflags⟩ := hself
  obtain ⟨g, hg, hA, hB⟩ := htwice
  refine ⟨⟨f, hf, hflags, fun h => ?_⟩, g, hg, hA, hB, fun h => ?_⟩
  · exact h.acyclic _ (.single hflags)
  · exact h.acyclic _ (.head hA (.single hB))

end DeclarationFile

end BoundaryTypes
