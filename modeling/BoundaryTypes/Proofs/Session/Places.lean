/-
  `Places` — every known alias is bound in one place.

  A known alias has its declaration at the top level of the file or in a place among
  the hoisted ones, never in both and never twice (`Placed`). A new alias gets a
  place at the end; a declaration at the top level gives up the place that its alias
  may have by then.
-/
import BoundaryTypes.Proofs.Session.Soundness

namespace BoundaryTypes.Session

open TypeExpr

variable {s t : Session} {tops : List String} {name : String} {definition : TypeExpr}

/-- Every known alias is bound once: at the top level under one of the names in `tops`, or in a
place that holds its declaration. -/
structure Placed (tops : List String) (s : Session) : Prop where
  nodup : (tops ++ s.hoisted.map (·.1)).Nodup
  bound : ∀ n, (∃ D, s.Knows n D) ↔ n ∈ tops ++ s.hoisted.map (·.1)
  texts : ∀ h ∈ s.hoisted, ∃ D, s.Knows h.1 D ∧ h.2 = some (D.declarationText h.1)
  /-- The type of arbitrary JSON is bound elsewhere. -/
  json : ∀ D, ¬ s.Knows jsonValueName D

theorem placed_empty (reserved : List String) : Placed [] (empty reserved) := by
  have hnone : ∀ n D, ¬ (empty reserved).Knows n D := fun n D => not_knows_of_eq_none rfl
  refine ⟨List.nodup_nil, fun n => ?_, fun h hh => absurd hh List.not_mem_nil, hnone _⟩
  exact ⟨fun ⟨D, hD⟩ => absurd hD (hnone n D), fun hn => absurd hn List.not_mem_nil⟩

theorem map_fst_meet {a : String × TypeExpr} (h : ¬ s.Settles a.1) :
    (s.meet a).hoisted.map (·.1) = s.hoisted.map (·.1) ++ [a.1] := by
  rw [meet_of_not_settles h, List.map_append]
  rfl

/-- A name that is not settled has no place yet, neither at the top nor among the hoisted. -/
theorem Placed.not_mem (h : Placed tops s) (hname : ¬ s.Settles name) :
    name ∉ tops ++ s.hoisted.map (·.1) := by
  intro hmem
  obtain ⟨D, hD⟩ := (h.bound name).2 hmem
  exact hname (settles_of_knows hD)

/-- A new alias gets a place at the end. -/
theorem Placed.meet (h : Placed tops s) (a : String × TypeExpr) : Placed tops (s.meet a) := by
  by_cases ha : s.Settles a.1
  · rw [meet_of_settles ha]
    exact h
  -- Only the new alias is known besides, and its place is the last.
  have hkeeps := keeps_meet (s := s) a
  have hmet : (s.meet a).Knows a.1 a.2 := (knows_meet_of_not_settles ha).2 knows_define
  constructor
  · rw [map_fst_meet ha, ← List.append_assoc, List.nodup_append]
    refine ⟨h.nodup, by simp, ?_⟩
    rintro n hn m hm rfl
    exact h.not_mem ha (List.mem_singleton.1 hm ▸ hn)
  · intro n
    rw [map_fst_meet ha, ← List.append_assoc, List.mem_append, List.mem_singleton, ← h.bound n]
    constructor
    · rintro ⟨D, hD⟩
      rcases knows_meet hD with hD | ⟨-, rfl⟩
      · exact .inl ⟨D, hD⟩
      · exact .inr rfl
    · rintro (⟨D, hD⟩ | rfl)
      · exact ⟨D, hkeeps.knows n D hD⟩
      · exact ⟨a.2, hmet⟩
  · intro place hplace
    rw [meet_of_not_settles ha] at hplace
    rcases List.mem_append.1 hplace with hplace | hplace
    · obtain ⟨D, hD, htext⟩ := h.texts place hplace
      exact ⟨D, hkeeps.knows _ _ hD, htext⟩
    · obtain rfl := List.mem_singleton.1 hplace
      exact ⟨a.2, hmet, rfl⟩
  · intro D hD
    rcases knows_meet hD with hD | ⟨hne, -⟩
    · exact h.json D hD
    · exact hne rfl

/-- Learning gives each new name one place. -/
theorem Placed.learn (h : Placed tops s) (met : List (String × TypeExpr)) :
    Placed tops (s.learn met) := by
  induction met generalizing s with
  | nil => exact h
  | cons a met ih => exact ih (h.meet a)

/-- To close a place takes its name away and leaves the order of the others. -/
theorem map_fst_closePlace :
    (s.closePlace name).hoisted.map (·.1) = (s.hoisted.map (·.1)).filter (· ≠ name) := by
  rw [closePlace, List.filter_map]
  rfl

/-- An alias that is declared at the top level has no other place. -/
theorem Placed.declare (h : Placed tops s) {new : Bool} (hjson : name ≠ jsonValueName)
    (htops : name ∉ tops) (hregistered : Registered s name definition new t) :
    Placed (name :: tops) (t.closePlace name) := by
  have hhoisted : t.hoisted = s.hoisted := by
    cases hregistered <;> rfl
  -- The place of the alias goes, and no other.
  have hnames : ∀ n, n ∈ (t.closePlace name).hoisted.map (·.1) ↔
      n ∈ s.hoisted.map (·.1) ∧ n ≠ name := by
    intro n
    rw [map_fst_closePlace, hhoisted, List.mem_filter]
    simp
  have hknows : ∀ n D, n ≠ name → ((t.closePlace name).Knows n D ↔ s.Knows n D) := by
    intro n D hne
    show t.Knows n D ↔ _
    cases hregistered with
    | json _ => rfl
    | known _ _ => rfl
    | new _ _ =>
      rw [knows_define_iff]
      simp [hne]
  have hname : (t.closePlace name).Knows name definition := hregistered.knows hjson
  constructor
  · rw [List.cons_append, List.nodup_cons, map_fst_closePlace, hhoisted]
    constructor
    · rw [List.mem_append, List.mem_filter]
      rintro (hmem | ⟨_, hne⟩)
      · exact htops hmem
      · simp at hne
    · exact h.nodup.sublist (List.filter_sublist.append_left _)
  · intro n
    rw [List.cons_append, List.mem_cons, List.mem_append, hnames]
    by_cases hn : n = name
    · subst hn
      exact ⟨fun _ => .inl rfl, fun _ => ⟨definition, hname⟩⟩
    · simp only [hknows n _ hn, h.bound n, List.mem_append]
      simp [hn]
  · intro place hplace
    obtain ⟨hmem, hne⟩ := List.mem_filter.1 hplace
    rw [hhoisted] at hmem
    have hne : place.1 ≠ name := by simpa using hne
    obtain ⟨D, hD, htext⟩ := h.texts place hmem
    exact ⟨D, (hknows _ _ hne).2 hD, htext⟩
  · intro D hD
    exact h.json D ((hknows _ _ hjson.symm).1 hD)

end BoundaryTypes.Session
