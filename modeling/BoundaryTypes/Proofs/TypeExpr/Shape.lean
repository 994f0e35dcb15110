/-
  `Shape` — which types a declaration can be written for.

  The conditions are about one part of a type and its children, whatever stands
  around them. A key may be missing only in a record. The fields of a record have
  names, all different. The variants of a union are told apart: all of them are
  literals, or all of them carry a literal as their tag, and no text repeats.
-/
import BoundaryTypes.Session
import BoundaryTypes.TypeExpr.Decode
import BoundaryTypes.Proofs.TypeExpr.Parts

namespace BoundaryTypes.TypeExpr

/-- Whether a type marks a key that may be missing. -/
def isOptional : TypeExpr → Bool
  | .optional _ => true
  | _ => false

/-- Whether a type is a record. -/
def isRecord : TypeExpr → Bool
  | .record _ => true
  | _ => false

/-- Every text is there, and no two are the same. -/
def Distinct (texts : List (Option String)) : Prop := none ∉ texts ∧ texts.Nodup

/-- No name is empty, and no two are the same. -/
def ProperNames (names : List String) : Prop := "" ∉ names ∧ names.Nodup

/-- What a declaration asks of a part of a type. -/
structure WellShaped (e : TypeExpr) : Prop where
  /-- A key that may be missing is the key of a field. -/
  marks : ∀ c ∈ e.children, c.isOptional = true → e.isRecord = true
  names : ∀ fields, e = .record fields → ProperNames (fields.map (·.1))
  variants : ∀ variants, e = .union variants →
    Distinct (variants.map literal?) ∨ Distinct (variants.map Session.tag?)

/-- Texts of which one is missing are not distinct. -/
theorem not_distinct_none_cons {texts : List (Option String)} : ¬ Distinct (none :: texts) :=
  fun h => h.1 List.mem_cons_self

/-! ### Names met before -/

/-- Entries that repeat neither each other nor one of those met before. -/
def Fresh {α : Type} (seen entries : List α) : Prop := (∀ n ∈ entries, n ∉ seen) ∧ entries.Nodup

theorem fresh_nil {α : Type} {seen : List α} : Fresh seen [] :=
  ⟨fun _ h => absurd h List.not_mem_nil, List.nodup_nil⟩

/-- Where nothing was met before, entries are fresh unless one repeats. -/
theorem fresh_nil_left {α : Type} {entries : List α} : Fresh [] entries ↔ entries.Nodup :=
  and_iff_right fun _ _ => List.not_mem_nil

/-- An entry is fresh among those after it once it counts as met. -/
theorem fresh_cons {α : Type} {seen entries : List α} {n : α} :
    Fresh seen (n :: entries) ↔ n ∉ seen ∧ Fresh (n :: seen) entries := by
  unfold Fresh
  rw [List.forall_mem_cons, List.nodup_cons]
  constructor
  · -- An entry behind it is neither the entry itself nor one that was met before.
    rintro ⟨⟨hn, hseen⟩, hnew, hnodup⟩
    refine ⟨hn, fun m hm hmem => ?_, hnodup⟩
    rcases List.mem_cons.1 hmem with rfl | hmem
    · exact hnew hm
    · exact hseen m hm hmem
  · rintro ⟨hn, hseen, hnodup⟩
    refine ⟨⟨hn, fun m hm hmem => hseen m hm (List.mem_cons_of_mem _ hmem)⟩, ?_, hnodup⟩
    exact fun hmem => hseen n hmem List.mem_cons_self

/-! ### Form by form -/

section

variable {e : TypeExpr} {name : String}

theorem wellShaped_primitive (kind : Primitive) : WellShaped (.primitive kind) :=
  ⟨by simp [children], by simp, by simp⟩

theorem wellShaped_literal (value : String) : WellShaped (.literal value) :=
  ⟨by simp [children], by simp, by simp⟩

theorem wellShaped_reference (name : String) : WellShaped (.reference name) :=
  ⟨by simp [children], by simp, by simp⟩

/-- A type around one other type, which is no record, asks only that the other marks no key. -/
theorem wellShaped_of_children {p : TypeExpr} (hchildren : p.children = [e])
    (hrecord : p.isRecord = false) (hunion : p.isUnion = false) :
    WellShaped p ↔ e.isOptional = false := by
  constructor
  · intro h
    cases hoptional : e.isOptional with
    | false => rfl
    | true =>
      rw [h.marks e (hchildren ▸ List.mem_cons_self) hoptional] at hrecord
      cases hrecord
  · intro h
    refine ⟨fun c hc hoptional => ?_, ?_, ?_⟩
    · rw [hchildren, List.mem_singleton] at hc
      rw [hc, h] at hoptional
      cases hoptional
    · -- The other two conditions are about records and unions.
      rintro fields rfl
      cases hrecord
    · rintro variants rfl
      cases hunion

theorem wellShaped_listOf : WellShaped (.listOf e) ↔ e.isOptional = false :=
  wellShaped_of_children rfl rfl rfl

theorem wellShaped_dictOf : WellShaped (.dictOf e) ↔ e.isOptional = false :=
  wellShaped_of_children rfl rfl rfl

theorem wellShaped_optional : WellShaped (.optional e) ↔ e.isOptional = false :=
  wellShaped_of_children rfl rfl rfl

theorem wellShaped_alias : WellShaped (.alias name e) ↔ e.isOptional = false :=
  wellShaped_of_children rfl rfl rfl

/-- A record is well shaped exactly when its names are proper. -/
theorem wellShaped_record {fields : List (String × TypeExpr)} :
    WellShaped (.record fields) ↔ ProperNames (fields.map (·.1)) := by
  constructor
  · intro h
    exact h.names fields rfl
  · intro h
    exact ⟨fun _ _ _ => rfl, by rintro _ ⟨⟩; exact h, by simp⟩

/-- Variants that are told apart are literals or records. -/
theorem isVariant_of_mem {variants : List TypeExpr}
    (h : Distinct (variants.map literal?) ∨ Distinct (variants.map Session.tag?)) {v : TypeExpr}
    (hv : v ∈ variants) : v.isVariant = true := by
  have hsome : v.literal? ≠ none ∨ Session.tag? v ≠ none := by
    refine h.imp (fun h hnone => h.1 ?_) (fun h hnone => h.1 ?_)
    · exact List.mem_map.2 ⟨v, hv, hnone⟩
    · exact List.mem_map.2 ⟨v, hv, hnone⟩
  cases v with
  | literal value => rfl
  | record fields => rfl
  | _ => exact absurd rfl (hsome.elim id id)

theorem isOptional_eq_false_of_isVariant {v : TypeExpr} (h : v.isVariant = true) :
    v.isOptional = false := by
  cases v with
  | optional e => cases h
  | _ => rfl

/-- A union is well shaped exactly when its variants are told apart, by their texts or by their
tags. -/
theorem wellShaped_union {variants : List TypeExpr} :
    WellShaped (.union variants) ↔
      Distinct (variants.map literal?) ∨ Distinct (variants.map Session.tag?) := by
  constructor
  · intro h
    exact h.variants variants rfl
  · intro h
    refine ⟨fun c hc hopt => ?_, by simp, by rintro _ ⟨⟩; exact h⟩
    rw [isOptional_eq_false_of_isVariant (isVariant_of_mem h hc)] at hopt
    cases hopt

end

end BoundaryTypes.TypeExpr
