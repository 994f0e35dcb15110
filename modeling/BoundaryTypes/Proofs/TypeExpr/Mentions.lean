/-
  `Mentions` — which names a type mentions, and which of them its text shows.

  The text of a type says of an alias only its name. So a name that is mentioned at some depth
  is shown by the text of the type or by that of an alias inside it (`mentions_cases`).
-/
import BoundaryTypes.Proofs.TypeExpr.Erasure

namespace BoundaryTypes

namespace TypeExpr

variable {e : TypeExpr} {n : String}

/-! ### Names that a text shows -/

/-- Whether the text of a type refers to a name: its own, not the definitions of its aliases. -/
def shows (e : TypeExpr) (name : String) : Bool := e.erase.mentions name

theorem mentions_iff_children :
    e.mentions n = true ↔ e.mentioned? = some n ∨ ∃ c ∈ e.children, c.mentions n = true := by
  rw [mentions_iff, preorder_eq]
  simp only [List.mem_cons, List.mem_flatMap, exists_eq_or_imp, mentions_iff]
  constructor
  · rintro (h | ⟨p, ⟨c, hc, hp⟩, h⟩)
    · exact .inl h
    · exact .inr ⟨c, hc, p, hp, h⟩
  · rintro (h | ⟨c, hc, p, hp, h⟩)
    · exact .inl h
    · exact .inr ⟨p, ⟨c, hc, hp⟩, h⟩

theorem shows_alias {name : String} {definition : TypeExpr} :
    (TypeExpr.alias name definition).shows n = true ↔ name = n := by
  rw [shows, erase, mentions_iff_children]
  simp [mentioned?, children]

theorem exists_mem_map_erase {es : List TypeExpr} :
    (∃ c ∈ es.map erase, c.mentions n = true) ↔ ∃ c ∈ es, c.shows n = true := by
  constructor
  · rintro ⟨_, hmem, h⟩
    obtain ⟨c, hc, rfl⟩ := List.mem_map.1 hmem
    exact ⟨c, hc, h⟩
  · rintro ⟨c, hc, h⟩
    exact ⟨_, List.mem_map_of_mem hc, h⟩

theorem shows_union {variants : List TypeExpr} :
    (union variants).shows n = true ↔ ∃ v ∈ variants, v.shows n = true := by
  have hwide : (union (variants.map erase)).mentions n = true ↔
      ∃ v ∈ variants, v.shows n = true := by
    rw [mentions_iff_children, ← exists_mem_map_erase]
    exact or_iff_right nofun
  rw [shows, erase, eraseVariants_eq]
  rcases variants with _ | ⟨v, _ | ⟨w, rest⟩⟩
  · exact hwide
  · simp [collapse, shows]
  · exact hwide

/-- The text of a type that is no alias refers to its own name and to what its children show. -/
theorem shows_iff (h : e.alias? = none) :
    e.shows n = true ↔ e.mentioned? = some n ∨ ∃ c ∈ e.children, c.shows n = true := by
  cases e with
  | union variants =>
    rw [shows_union]
    simp [mentioned?, children]
  | record fields =>
    rw [shows, erase, eraseFields_eq, mentions_iff_children, ← exists_mem_map_erase]
    simp only [mentioned?, children, List.map_map]
    rfl
  | «alias» name definition => cases h
  | _ =>
    rw [shows, erase, mentions_iff_children]
    simp [mentioned?, children, shows]

/-- What the text of a type shows that has no name of its own is shown by a child. -/
theorem exists_child_of_shows (h : e.shows n = true) (hname : e.mentioned? = none) :
    ∃ c ∈ e.children, c.shows n = true := by
  have halias : e.alias? = none := by
    cases e with
    | «alias» name definition => cases hname
    | _ => rfl
  rcases (shows_iff halias).1 h with hself | hchild
  · rw [hname] at hself
    cases hself
  · exact hchild

/-- The mark of a field's key shows nothing. -/
theorem shows_iff_unmarked : e.shows n = true ↔ e.unmarked.shows n = true := by
  cases e with
  | optional inner =>
    rw [shows_iff rfl]
    simp [unmarked, mentioned?, children]
  | _ => rfl

/-! ### Names that a type mentions -/

/-- A type mentions a name in its own text or in that of an alias inside it. An alias of the name
itself need not be opened for it. -/
theorem mentions_cases (h : e.mentions n = true) :
    e.shows n = true ∨ ∃ a ∈ e.aliases, a.1 ≠ n ∧ a.2.shows n = true := by
  induction e using size_induction with
  | _ e ih =>
    rw [mentions_iff_children] at h
    -- The text shows what stands around an alias, and of the alias the name.
    cases halias : e.alias? with
    | none =>
      rw [shows_iff halias]
      rcases h with h | ⟨c, hc, h⟩
      · exact .inl (.inl h)
      · rcases ih c (size_lt_of_mem_children hc) h with hshows | ⟨a, ha, hshows⟩
        · exact .inl (.inr ⟨c, hc, hshows⟩)
        · refine .inr ⟨a, ?_, hshows⟩
          rw [aliases_eq]
          exact List.mem_append_right _ (List.mem_flatMap.2 ⟨c, hc, ha⟩)
    | some a =>
      obtain ⟨name, definition⟩ := a
      obtain rfl := alias?_eq_some.1 halias
      rw [shows_alias]
      by_cases hname : name = n
      · exact .inl hname
      have hinside : definition.mentions n = true := by
        rcases h with h | ⟨c, hc, h⟩
        · exact absurd (Option.some.inj h) hname
        · exact List.mem_singleton.1 hc ▸ h
      rw [aliases_alias]
      rcases ih definition (Nat.lt_succ_self _) hinside with hshows | ⟨b, hb, hshows⟩
      · exact .inr ⟨_, List.mem_cons_self, hname, hshows⟩
      · exact .inr ⟨b, List.mem_cons_of_mem _ hb, hshows⟩

/-- What a text refers to is mentioned in the type. -/
theorem mentions_of_shows (h : e.shows n = true) : e.mentions n = true := by
  induction e using size_induction with
  | _ e ih =>
    rw [mentions_iff_children]
    cases halias : e.alias? with
    | none =>
      refine ((shows_iff halias).1 h).imp_right ?_
      rintro ⟨c, hc, hshows⟩
      exact ⟨c, hc, ih c (size_lt_of_mem_children hc) hshows⟩
    | some a =>
      obtain ⟨name, definition⟩ := a
      obtain rfl := alias?_eq_some.1 halias
      exact .inl (congrArg some (shows_alias.1 h))

end TypeExpr

end BoundaryTypes
