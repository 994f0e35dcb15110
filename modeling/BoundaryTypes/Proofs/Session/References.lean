/-
  `References` — which references a session lets pass.

  A reference should stand inside the alias that it names. The check of a type knows the
  aliases around each reference, but it passes over the definition of an alias that it
  has registered already, wherever the copy stands. So the references that count are
  those of first copies (`dangling`), and `inline_resolves` says exactly which types pass
  and what becomes of the others. As long as every alias that is written more than once
  has no reference out of itself (`RepeatsClosed`), no reference is lost with a copy: a
  type that passes has no free reference, whatever the order of its fields
  (`Rearranged`). Otherwise the order counts (`inline_copiedOutside`).
-/
import BoundaryTypes.Proofs.Session.Completeness

namespace BoundaryTypes

namespace TypeExpr

variable {scopes seen : List String} {e f : TypeExpr} {n : String}
  {met others : List (String × TypeExpr)}

/-! ### Copies of aliases -/

/-- Those of the aliases that come again, or were seen before, have no reference out of
themselves. -/
def ClosedCopies (seen : List String) (met : List (String × TypeExpr)) : Prop :=
  ∀ a ∈ met, a.1 ∈ seen ∨ 1 < (met.map (·.1)).count a.1 → (TypeExpr.alias a.1 a.2).free = []

/-- Every alias that is written more than once has no reference out of itself. -/
def RepeatsClosed (e : TypeExpr) : Prop :=
  ∀ a ∈ e.aliases, 1 < (e.aliases.map (·.1)).count a.1 → (TypeExpr.alias a.1 a.2).free = []

instance (e : TypeExpr) : Decidable e.RepeatsClosed :=
  inferInstanceAs (Decidable (∀ a ∈ e.aliases,
    1 < (e.aliases.map (·.1)).count a.1 → (TypeExpr.alias a.1 a.2).free = []))

theorem RepeatsClosed.closedCopies (h : e.RepeatsClosed) : ClosedCopies [] e.aliases := by
  intro a ha hcopy
  exact h a ha (hcopy.resolve_left List.not_mem_nil)

theorem ClosedCopies.left (h : ClosedCopies seen (met ++ others)) : ClosedCopies seen met := by
  intro a ha hcopy
  refine h a (List.mem_append_left _ ha) (hcopy.imp_right fun hcount => ?_)
  rw [List.map_append, List.count_append]
  omega

/-- The aliases that come first are seen before the others. -/
theorem ClosedCopies.right (h : ClosedCopies seen (met ++ others)) :
    ClosedCopies (met.map (·.1) ++ seen) others := by
  intro a ha hcopy
  apply h a (List.mem_append_right _ ha)
  have hself : 0 < (others.map (·.1)).count a.1 := List.count_pos_iff.2 (List.mem_map_of_mem ha)
  rw [List.map_append, List.count_append]
  rcases hcopy with hseen | hcount
  · rcases List.mem_append.1 hseen with hmet | hseen
    · have hfirst := List.count_pos_iff.2 hmet
      exact .inr (by omega)
    · exact .inl hseen
  · exact .inr (by omega)

/-- Among types that are visited one after another, no free reference is lost with a copy. -/
theorem mem_danglingAll_of_free {es : List TypeExpr}
    (ih : ∀ e ∈ es, ∀ seen, ClosedCopies seen e.aliases → n ∈ e.free → n ∈ e.dangling scopes seen)
    (h : ClosedCopies seen (es.flatMap aliases)) (hfree : n ∈ es.flatMap free) :
    n ∈ danglingAll scopes seen es := by
  induction es generalizing seen with
  | nil => exact absurd hfree List.not_mem_nil
  | cons e rest ihrest =>
    rw [List.forall_mem_cons] at ih
    rw [List.flatMap_cons] at h
    rw [List.flatMap_cons, List.mem_append] at hfree
    rw [danglingAll, List.mem_append]
    rcases hfree with hfree | hfree
    · exact .inl (ih.1 seen h.left hfree)
    · exact .inr (ihrest ih.2 h.right hfree)

/-- A free reference dangles, unless it is passed over with a copy of an alias. -/
theorem mem_dangling_of_free (h : ClosedCopies seen e.aliases) (hfree : n ∈ e.free)
    (hscopes : n ∉ scopes) : n ∈ e.dangling scopes seen := by
  induction e generalizing scopes seen with
  | primitive kind => exact absurd hfree List.not_mem_nil
  | literal value => exact absurd hfree List.not_mem_nil
  | reference name =>
    obtain rfl := List.mem_singleton.1 hfree
    rw [dangling, if_neg hscopes]
    exact List.mem_cons_self
  | listOf e ih => exact ih (aliases_listOf e ▸ h) hfree hscopes
  | dictOf e ih => exact ih (aliases_dictOf e ▸ h) hfree hscopes
  | optional e ih => exact ih (aliases_optional e ▸ h) hfree hscopes
  | record fields ih =>
    rw [dangling_record]
    have haliases : (record fields).aliases =
        (fields.map fun f => f.2.unmarked).flatMap aliases := by
      rw [aliases_record, List.flatMap_map]
      simp only [aliases_unmarked]
    have hmem : n ∈ (fields.map fun f => f.2.unmarked).flatMap free := by
      rw [List.flatMap_map]
      simp only [free_unmarked]
      exact free_record fields ▸ hfree
    -- Fields are visited without the marks of their keys, which neither add nor take references.
    refine mem_danglingAll_of_free (List.forall_mem_map.2 ?_) (haliases ▸ h) hmem
    intro f hf seen hcopies hmem
    exact (ih f hf).2 hcopies hmem hscopes
  | union variants ih =>
    rw [free_union] at hfree
    refine mem_danglingAll_of_free ?_ (aliases_union variants ▸ h) hfree
    intro v hv seen hcopies hmem
    exact ih v hv hcopies hmem hscopes
  | «alias» name definition ih =>
    rw [aliases_alias] at h
    obtain ⟨hinside, hne⟩ := List.mem_filter.1 hfree
    have hne : n ≠ name := by simpa using hne
    rw [dangling]
    split
    · next hseen =>
      -- The copy is passed over, and nothing in it reaches out.
      rw [h _ List.mem_cons_self (.inl hseen)] at hfree
      exact absurd hfree List.not_mem_nil
    · have h : ClosedCopies seen ([(name, definition)] ++ definition.aliases) := h
      have hcopies : ClosedCopies (name :: seen) definition.aliases := h.right
      refine ih hcopies hinside fun hmem => ?_
      exact (List.mem_cons.1 hmem).elim hne hscopes

/-! ### The order of fields -/

/-- The same type but for the order of fields in records, at any depth. -/
inductive Rearranged : TypeExpr → TypeExpr → Prop
  | refl (e : TypeExpr) : Rearranged e e
  | trans {e f g : TypeExpr} (h : Rearranged e f) (h' : Rearranged f g) : Rearranged e g
  | fields {fields others : List (String × TypeExpr)} (h : fields.Perm others) :
    Rearranged (.record fields) (.record others)
  | field {before after : List (String × TypeExpr)} {name : String} {e f : TypeExpr}
    (h : Rearranged e f) :
    Rearranged (.record (before ++ (name, e) :: after)) (.record (before ++ (name, f) :: after))
  | variant {before after : List TypeExpr} {e f : TypeExpr} (h : Rearranged e f) :
    Rearranged (.union (before ++ e :: after)) (.union (before ++ f :: after))
  | listOf {e f : TypeExpr} (h : Rearranged e f) : Rearranged (.listOf e) (.listOf f)
  | dictOf {e f : TypeExpr} (h : Rearranged e f) : Rearranged (.dictOf e) (.dictOf f)
  | optional {e f : TypeExpr} (h : Rearranged e f) : Rearranged (.optional e) (.optional f)
  | alias {name : String} {e f : TypeExpr} (h : Rearranged e f) :
    Rearranged (.alias name e) (.alias name f)

/-- Whether a reference is free does not depend on the order of fields. -/
theorem Rearranged.mem_free_iff (h : Rearranged e f) : n ∈ e.free ↔ n ∈ f.free := by
  induction h with
  | refl e => rfl
  | trans _ _ ih ih' => exact ih.trans ih'
  | fields h => rw [free_record, free_record, (h.flatMap_right _).mem_iff]
  | field _ ih => simp only [free_record, List.flatMap_append, List.flatMap_cons,
      List.mem_append, ih]
  | variant _ ih => simp only [free_union, List.flatMap_append, List.flatMap_cons,
      List.mem_append, ih]
  | listOf _ ih => exact ih
  | dictOf _ ih => exact ih
  | optional _ ih => exact ih
  | «alias» _ ih =>
    show _ ∈ List.filter _ _ ↔ _ ∈ List.filter _ _
    rw [List.mem_filter, List.mem_filter, ih]

/-! ### Everything but references -/

/-- What a declaration asks of a type, its references aside. -/
structure Writable (reserved : List String) (e : TypeExpr) : Prop where
  unmarked : e.isOptional = false
  shape : e.Everywhere WellShaped
  nameable : ∀ a ∈ e.aliases, Session.Nameable reserved a.1 a.2
  /-- No name has two definitions. -/
  definitions : ∀ n D D', n ≠ jsonValueName → (n, D) ∈ e.aliases → (n, D') ∈ e.aliases → D = D'

end TypeExpr

namespace Session

open Outcome TypeExpr

variable {reserved : List String} {e : TypeExpr} {route : Route}

/-- The definitions that a type gives to the names other than that of arbitrary JSON. -/
def BoundIn (e : TypeExpr) (n : String) (D : TypeExpr) : Prop :=
  n ≠ jsonValueName ∧ (n, D) ∈ e.aliases

theorem fits_of_writable (h : e.Writable reserved) : e.Everywhere (Fits reserved (BoundIn e)) := by
  intro p hp
  refine ⟨h.shape p hp, ?_, ?_⟩
  · rintro n D rfl
    exact h.nameable (n, D) (mem_aliases.2 hp)
  · rintro n D rfl hjson
    exact ⟨hjson, mem_aliases.2 hp⟩

/-- A session that has met no alias agrees with all definitions. -/
theorem agrees_empty (bound : String → TypeExpr → Prop) (size : Nat) :
    Agrees reserved bound [] size (empty reserved) := by
  refine ⟨rfl, fun n D hD => absurd hD (not_knows_of_eq_none rfl), settled_empty reserved, ?_⟩
  exact fun _ hn => absurd hn List.not_mem_nil

theorem writable_of_check {s : Session} (h : check [] route e (empty reserved) = .ok () s) :
    e.Writable reserved := by
  have hs : Agrees reserved (fun _ _ => True) [] e.size (empty reserved) := agrees_empty _ _
  obtain ⟨hstate, hknown, hunmarked, -⟩ := check_sound e [] route h hs.settled hs.sized
  have hreserved : s.reserved = reserved := by
    rw [hstate]
    exact (keeps_learn e.aliases).reserved
  refine ⟨hunmarked, hknown.imp fun p hp => hp.1.shape, ?_, ?_⟩
  · rintro ⟨n, D⟩ ha
    rw [← hreserved]
    exact (hknown _ (mem_aliases.1 ha)).1.nameable n D rfl
  · intro n D D' hjson hD hD'
    have hbound : ∀ D, (n, D) ∈ e.aliases → s.Knows n D :=
      fun D hD => (hknown _ (mem_aliases.1 hD)).1.bound n D rfl hjson
    exact (hbound D hD).unique (hbound D' hD')

/-- In a session that has met no alias, a check of a writable type comes to its verdict. -/
theorem verdict_of_writable (route : Route) (h : e.Writable reserved) :
    Verdict (e.dangling [] []) (check [] route e (empty reserved)) := by
  have hfunctional : Functional (BoundIn e) :=
    fun n D D' hD hD' => h.definitions n D D' hD.1 hD.2 hD'.2
  exact check_judged hfunctional e [] (fits_of_writable h) h.unmarked route
    (agrees_empty _ _) (hasMet_empty reserved)

theorem inline_run_eq_ok {text : String} {s s' : Session} :
    Session.inline e route s = .ok text s' ↔ check [] route e s = .ok () s' ∧ e.inline = text := by
  rw [Session.inline, bind_run_eq_ok]
  constructor
  · rintro ⟨_, t, hcheck, h⟩
    obtain ⟨rfl, rfl⟩ := pure_run_eq_ok.1 h
    exact ⟨hcheck, rfl⟩
  · rintro ⟨hcheck, rfl⟩
    exact ⟨(), s', hcheck, rfl⟩

/-- A writable type passes if and only if no reference of it dangles, and no other type does. -/
theorem inline_passes_iff :
    (∃ text s, Session.inline e route (empty reserved) = .ok text s) ↔
      e.Writable reserved ∧ e.dangling [] [] = [] := by
  constructor
  · rintro ⟨text, s, h⟩
    obtain ⟨hcheck, -⟩ := inline_run_eq_ok.1 h
    have hwritable := writable_of_check hcheck
    refine ⟨hwritable, ?_⟩
    cases hdangling : e.dangling [] [] with
    | nil => rfl
    | cons n rest =>
      have hverdict := verdict_of_writable route hwritable
      rw [hdangling, hcheck] at hverdict
      obtain ⟨r, t, ht⟩ := hverdict
      cases ht
  · rintro ⟨hwritable, hdangling⟩
    have hverdict := verdict_of_writable route hwritable
    rw [hdangling] at hverdict
    obtain ⟨s, hs⟩ := hverdict
    exact ⟨_, s, inline_run_eq_ok.2 ⟨hs, rfl⟩⟩

/-- **References that pass.** In a session that has met no alias, a type passes if and only if it is
writable and the first copies of its aliases leave no reference dangling. A writable type that does
not pass is refused for the first reference that dangles, and that one is free. If no alias with a
reference out of itself is written twice, a type that passes has no free reference, and none of its
rearrangements has one. -/
theorem inline_resolves (reserved : List String) (e : TypeExpr) (route : Route) :
    ((∃ text s, Session.inline e route (empty reserved) = .ok text s) ↔
      e.Writable reserved ∧ e.dangling [] [] = []) ∧
    (e.Writable reserved → ∀ n rest, e.dangling [] [] = n :: rest → n ∈ e.free ∧
      ∃ r s, Session.inline e route (empty reserved) = .error ⟨.unresolved n, r⟩ s) ∧
    (e.RepeatsClosed → (∃ text s, Session.inline e route (empty reserved) = .ok text s) →
      ∀ other, e.Rearranged other → other.free = []) := by
  refine ⟨inline_passes_iff, ?_, ?_⟩
  · intro hwritable n rest hdangling
    have hmem : n ∈ e.dangling [] [] := hdangling ▸ List.mem_cons_self
    have hverdict := verdict_of_writable route hwritable
    rw [hdangling] at hverdict
    obtain ⟨r, s, hs⟩ := hverdict
    exact ⟨(free_of_mem_dangling hmem).1, r, s, bind_run_of_error _ hs⟩
  · -- A rearrangement has the free references of the type, and here each of those would dangle.
    intro hclosed hpasses other hother
    obtain ⟨-, hdangling⟩ := inline_passes_iff.1 hpasses
    refine List.eq_nil_iff_forall_not_mem.2 fun n hn => ?_
    have hmem := mem_dangling_of_free hclosed.closedCopies (hother.mem_free_iff.2 hn)
      List.not_mem_nil
    rw [hdangling] at hmem
    exact absurd hmem List.not_mem_nil

/-- A tree whose nodes carry two points: one alias refers to itself, the other is written twice. -/
def tree : TypeExpr :=
  let point : TypeExpr := .alias "Point" (.record [("x", .primitive .number)])
  .alias "Tree" (.record [("from", point), ("to", point), ("below", .listOf (.reference "Tree"))])

theorem inline_resolves_tree :
    tree.Writable [] ∧ tree.dangling [] [] = [] ∧ tree.RepeatsClosed ∧
      (∃ text s, Session.inline tree [] (empty []) = .ok text s) ∧ tree.free = [] := by
  have hpasses : ∃ text s, Session.inline tree [] (empty []) = .ok text s := ⟨_, _, rfl⟩
  have hclosed : tree.RepeatsClosed := by decide +kernel
  obtain ⟨haccepts, -, hkept⟩ := inline_resolves [] tree []
  obtain ⟨hwritable, hdangling⟩ := haccepts.1 hpasses
  exact ⟨hwritable, hdangling, hclosed, hpasses, hkept hclosed hpasses tree (.refl tree)⟩

/-- An alias with a reference out of itself, first inside the alias that it names, then outside. -/
def copiedOutside : TypeExpr :=
  let inner : TypeExpr := .alias "B" (.reference "A")
  .record [("a", .alias "A" (.record [("b", inner)])), ("c", inner)]

/-- The same fields in the other order. -/
def copiedOutsideFirst : TypeExpr :=
  let inner : TypeExpr := .alias "B" (.reference "A")
  .record [("c", inner), ("a", .alias "A" (.record [("b", inner)]))]

/-- A free reference passes with a copy of its alias, and the order of the two fields decides:
in the other order it is refused, at the alias that it stands in. -/
theorem inline_copiedOutside :
    (∃ text s, Session.inline copiedOutside [] (empty []) = .ok text s) ∧
      copiedOutside.free = ["A"] ∧ copiedOutside.Rearranged copiedOutsideFirst ∧
      ∃ s, Session.inline copiedOutsideFirst [] (empty []) =
        .error ⟨.unresolved "A", ["c", "B"]⟩ s := by
  refine ⟨⟨_, _, rfl⟩, by decide +kernel, .fields (.swap _ _ _), ⟨_, rfl⟩⟩

end Session

end BoundaryTypes
