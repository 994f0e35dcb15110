/-
  `Layouts` — a type written inside another one, and the same type declared under a name.

  A declaration of an alias differs from the alias's definition inside another type in two
  ways. It is laid out over several lines if the definition is a record or a union with
  members, and its check knows one name more. The first difference is only in what stands
  between the members (`LaidOut`). The second makes none if the definition avoids the name:
  the two checks keep step (`Session.parallel_check`), so that both calls succeed or both fail,
  with the same places for the aliases inside (`Corresponds`).
-/
import BoundaryTypes.Proofs.Session.Parallel
import BoundaryTypes.Proofs.Translator.History

namespace BoundaryTypes.Translator

open Outcome Session TypeExpr

variable {name : String} {e : TypeExpr}

/-! ### Members and what stands between them -/

/-- The text of a type inside another one, and the declaration of the type under a name: a union and
a record with members have the same members in both, every other type has its text in both. -/
inductive LaidOut (name : String) : TypeExpr → String → String → Prop
  | union {variants : List TypeExpr} {members : List String} (hne : variants ≠ [])
    (hlength : members.length = variants.length) :
    LaidOut name (.union variants) (" | ".intercalate members)
      ("type " ++ name ++ " =" ++ String.join (members.map fun m => "\n  | " ++ m) ++ ";")
  | record {fields : List (String × TypeExpr)} {members : List String} (hne : fields ≠ [])
    (hlength : members.length = fields.length) :
    LaidOut name (.record fields) ("\x7b " ++ "; ".intercalate members ++ " \x7d")
      ("type " ++ name ++ " = \x7b\n" ++ String.join (members.map fun m => "  " ++ m ++ ";\n")
        ++ "\x7d;")
  | line {e : TypeExpr} {text : String} (hunion : ∀ variants, e = .union variants → variants = [])
    (hrecord : ∀ fields, e = .record fields → fields = []) :
    LaidOut name e text ("type " ++ name ++ " = " ++ text ++ ";")

theorem length_variantTexts (variants : List TypeExpr) :
    (variantTexts variants).length = variants.length := by
  rw [variantTexts_eq, List.length_map]

theorem length_fieldTexts (fields : List (String × TypeExpr)) :
    (fieldTexts fields).length = fields.length := by
  rw [fieldTexts_eq, List.length_map]

/-- The texts of a type in the two layouts are made of the same members. -/
theorem laidOut (name : String) (e : TypeExpr) :
    LaidOut name e e.inline (e.declarationText name) := by
  -- All other types are declared in one line.
  have hline : e.definitionText = " = " ++ e.inline →
      e.declarationText name = "type " ++ name ++ " = " ++ e.inline ++ ";" := by
    intro htext
    simp only [declarationText, htext, String.append_assoc]
  cases e with
  | union variants =>
    cases variants with
    | nil =>
      rw [hline rfl]
      exact .line (fun _ h => (TypeExpr.union.inj h).symm) nofun
    | cons v rest =>
      have htext : (union (v :: rest)).declarationText name = "type " ++ name ++ " =" ++
          String.join ((variantTexts (v :: rest)).map fun m => "\n  | " ++ m) ++ ";" := by
        simp only [declarationText, definitionText, variantLines, String.append_assoc]
      rw [htext]
      exact .union (List.cons_ne_nil v rest) (length_variantTexts _)
  | record fields =>
    cases fields with
    | nil =>
      rw [hline rfl]
      exact .line nofun fun _ h => (TypeExpr.record.inj h).symm
    | cons f rest =>
      have htext : (record (f :: rest)).declarationText name = "type " ++ name ++ " = \x7b\n" ++
          String.join ((fieldTexts (f :: rest)).map fun m => "  " ++ m ++ ";\n") ++ "\x7d;" := by
        have hclose : "\x7d" ++ ";" = "\x7d;" := rfl
        simp only [declarationText, definitionText, fieldLines, String.append_assoc, hclose]
      rw [htext]
      exact .record (List.cons_ne_nil f rest) (length_fieldTexts _)
  | _ =>
    rw [hline rfl]
    exact .line nofun nofun

/-! ### Calls with corresponding outcomes -/

/-- The outcomes of writing a type and of declaring it under a name at the end of a route: both
succeed, with texts of the same members, or both fail for the same cause, at a place that the
declaration reports behind the route and the name. The aliases inside have the same places. -/
inductive Corresponds (name : String) (e : TypeExpr) (route : Route) :
    EStateM.Result TypeFault Translator String → EStateM.Result TypeFault Translator String → Prop
  | written {text declaration : String} {t u : Translator} (hlaid : LaidOut name e text declaration)
    (hhoisted : u.hoistedTexts = t.hoistedTexts) :
    Corresponds name e route (.ok text t) (.ok declaration u)
  | failed {cause : Cause} {inside : Route} {t u : Translator}
    (hhoisted : u.hoistedTexts = t.hoistedTexts) :
    Corresponds name e route (.error ⟨cause, inside⟩ t) (.error ⟨cause, route ++ name :: inside⟩ u)

/-- Sessions that are alike have hoisted the same declarations. -/
theorem hoistedTexts_of_alike {s t : Session} {apart : List String} (h : Alike apart s t) :
    hoistedTexts ⟨t, []⟩ = hoistedTexts ⟨s, []⟩ := by
  show t.hoisted.map _ = s.hoisted.map _
  rw [h.hoisted]

/-! ### Calls of a new translator -/

variable (reserved : List String)

/-- A new translator checks a type among no open aliases, and prints it inline. -/
theorem translate_new (e : TypeExpr) (route : Route) :
    translate e route (new reserved) =
      onStack [] ((check [] route e >>= fun _ => pure e.inline) (empty reserved)) :=
  (idle_new reserved).perform_eq (.translate e route)

/-- A new translator checks the definition of a new alias as if it stood inside that alias, and
prints it as a declaration of its own. -/
theorem declare_new {definition : TypeExpr} (hnew : New (empty reserved) name definition)
    (route : Route) :
    declare name definition route (new reserved) =
      onStack [] ((check [name] (route ++ [name]) definition >>= fun _ =>
        pure (definition.declarationText name))
          (((empty reserved).define name definition).closePlace name)) := by
  have hbased : Call.Based (.declare name definition route) (empty reserved) _ := .new hnew
  have hsession := hbased.session_eq
  simp only [Call.body, Call.text, if_neg hnew.proper] at hsession
  rw [← hsession]
  exact (idle_new reserved).perform_eq (.declare name definition route)

/-- **The two layouts agree.** For new translators, a valid name other than that of arbitrary JSON,
and a definition in which the name belongs to no alias and no reference, writing the definition and
declaring it under the name have corresponding outcomes. -/
theorem layouts_agree (name : String) (definition : TypeExpr) (route : Route)
    (htype : isTypeName name = true) (hfree : name ∉ reserved) (hjson : name ≠ jsonValueName)
    (hmentions : definition.mentions name = false) :
    Corresponds name definition route (translate definition [] (new reserved))
      (declare name definition route (new reserved)) := by
  have hnew : New (empty reserved) name definition :=
    ⟨⟨htype, hfree, fun h => absurd h hjson⟩, hjson, rfl⟩
  -- The declaration has its check in a session that knows the alias, inside its definition.
  have halike : Alike [name] (empty reserved)
      (((empty reserved).define name definition).closePlace name) :=
    ⟨rfl, (alike_define definition List.mem_cons_self).definitions, rfl⟩
  have hscopes : SameScopes [name] [] [name] := fun n hn =>
    ⟨fun hmem => absurd hmem hn, fun hmem => absurd hmem List.not_mem_nil⟩
  have hkeeps : KeepsStep [name] (route ++ [name]) definition :=
    parallel_check definition (avoids_singleton.2 hmentions)
  have hchecks := hkeeps [] [name] [] hscopes _ _ halike
  rw [List.append_nil] at hchecks
  rw [translate_new, declare_new reserved hnew]
  generalize hinside : check [] [] definition (empty reserved) = r at hchecks
  generalize hbehind : check [name] (route ++ [name]) definition _ = r' at hchecks
  -- The checks end alike. What is written after them differs in its layout only.
  cases hchecks with
  | ok hlater =>
    rw [bind_run_of_ok _ hinside, bind_run_of_ok _ hbehind]
    exact .written (laidOut name definition) (hoistedTexts_of_alike hlater)
  | @error f s t hlater =>
    rw [bind_run_of_error _ hinside, bind_run_of_error _ hbehind]
    show Corresponds name definition route (.error f _) (.error ⟨f.cause, _⟩ _)
    rw [List.append_assoc, List.singleton_append]
    exact .failed (hoistedTexts_of_alike hlater)

/-- A record with an alias inside an alias. -/
def figure : TypeExpr :=
  .record [("title", .optional (.primitive .string)),
    ("outline", .alias "Path" (.listOf (.alias "Point" (.dictOf (.reference "Path")))))]

theorem figure_avoids : Avoids ["Figure"] figure := by
  simp [Avoids, figure, everywhere_record, everywhere_optional, everywhere_alias, everywhere_listOf,
    everywhere_dictOf, everywhere_primitive, everywhere_reference, mentioned?]

theorem layouts_agree_figure :
    isTypeName "Figure" = true ∧ figure.mentions "Figure" = false ∧
      Corresponds "Figure" figure ["app"] (translate figure [] (new ["ElmApp"]))
        (declare "Figure" figure ["app"] (new ["ElmApp"])) := by
  have htype : isTypeName "Figure" = true := by decide +kernel
  have hmentions : figure.mentions "Figure" = false := avoids_singleton.1 figure_avoids
  exact ⟨htype, hmentions,
    layouts_agree ["ElmApp"] "Figure" figure ["app"] htype (by decide) (by decide) hmentions⟩

end BoundaryTypes.Translator
