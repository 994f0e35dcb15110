/-
  `Enclosure` — a reference stands inside the alias that it names.

  A check lets a reference pass when it is inside the definition of an alias of that name,
  and an alias is known with the definition that was checked. So of an alias that is defined
  by a mere reference more can be said than that the name is bound: the whole alias is a part
  of the alias that it refers to (`Enclosed`). The aliases whose definitions are just being
  checked are excepted, and each of them is settled when its definition is left.
-/
import BoundaryTypes.Proofs.Session.Soundness

namespace BoundaryTypes.Session

open Outcome TypeExpr

variable {s s' t : Session} {scopes : List String} {name m text : String} {route : Route}
  {definition e p : TypeExpr} {u : Unit}

/-! ### Aliases that hold a type -/

/-- A type is a part of the known alias of a name. -/
def Holds (s : Session) (name : String) (e : TypeExpr) : Prop :=
  ∃ D, s.Knows name D ∧ e ∈ (TypeExpr.alias name D).preorder

theorem Holds.mono (h : s.Holds name e) (hst : s.Keeps t) : t.Holds name e := by
  obtain ⟨D, hD, he⟩ := h
  exact ⟨D, hst.knows _ _ hD, he⟩

/-- A session that holds a type holds its parts. -/
theorem Holds.part (h : s.Holds name e) (hp : p ∈ e.preorder) : s.Holds name p := by
  obtain ⟨D, hD, he⟩ := h
  exact ⟨D, hD, mem_preorder_trans hp he⟩

theorem holds_of_knows (h : s.Knows name definition) : s.Holds name (.alias name definition) :=
  ⟨definition, h, mem_preorder_self _⟩

/-- All aliases in `scopes` hold a type. -/
def Around (scopes : List String) (e : TypeExpr) (s : Session) : Prop :=
  ∀ m ∈ scopes, s.Holds m e

theorem Around.mono (h : Around scopes e s) (hst : s.Keeps t) : Around scopes e t :=
  fun m hm => (h m hm).mono hst

/-- What is around a type is around its parts. -/
theorem Around.part (h : Around scopes e s) (hp : p ∈ e.preorder) : Around scopes p s :=
  fun m hm => (h m hm).part hp

theorem Around.child {c : TypeExpr} (h : Around scopes e s) (hc : c ∈ e.children) :
    Around scopes c s :=
  h.part (mem_preorder_iff.2 (.inr ⟨c, hc, mem_preorder_self c⟩))

/-- The aliases around a field are around its type without the mark of its key. -/
theorem Around.unmarked (h : Around scopes e s) : Around scopes e.unmarked s := by
  cases e with
  | optional inner => exact h.child List.mem_cons_self
  | _ => exact h

/-- A new alias is in no scope, for those in scope are known. -/
theorem Around.not_mem (h : Around scopes e s) (hnew : s.definition? name = none) :
    name ∉ scopes := by
  intro hmem
  obtain ⟨D, hD, -⟩ := h name hmem
  exact not_knows_of_eq_none hnew hD

/-- A new alias is around itself, as are those around it. -/
theorem Around.enter (h : Around scopes (.alias name definition) s)
    (hnew : s.definition? name = none) :
    Around (name :: scopes) (.alias name definition) (s.enter name definition) :=
  List.forall_mem_cons.2 ⟨holds_of_knows knows_enter, h.mono (keeps_enter definition hnew)⟩

/-! ### The invariant -/

/-- An alias that is defined by a mere reference is a part of the alias that it refers to, unless it
is one of those in `scopes`. -/
def Enclosed (scopes : List String) (s : Session) : Prop :=
  ∀ n m, s.Knows n (.reference m) → n ∉ scopes → s.Holds m (.alias n (.reference m))

theorem enclosed_empty (reserved : List String) : Enclosed [] (empty reserved) :=
  fun _ _ h => absurd h (not_knows_of_eq_none rfl)

/-- A new alias may be opened around others. -/
theorem Enclosed.enter (h : Enclosed scopes s) (hnew : s.definition? name = none) :
    Enclosed (name :: scopes) (s.enter name definition) := by
  intro n m hn hscopes
  rw [List.mem_cons, not_or] at hscopes
  rcases knows_define_iff.1 hn with ⟨heq, -⟩ | ⟨-, hn⟩
  · exact absurd heq hscopes.1
  · exact (h n m hn hscopes.2).mono (keeps_enter definition hnew)

/-- A definition that has passed may be left: if it is a mere reference, it names an alias
around it. -/
theorem Enclosed.leave (h : Enclosed (name :: scopes) t) (hname : t.Knows name definition)
    (haround : Around (name :: scopes) (.alias name definition) t)
    (hcheck : check (name :: scopes) route definition s = .ok u s') : Enclosed scopes t := by
  intro n m hn hscopes
  by_cases heq : n = name
  · subst heq
    obtain rfl := hname.unique hn
    exact haround m (check_reference_iff.1 hcheck).1
  · exact h n m hn fun hmem => (List.mem_cons.1 hmem).elim heq hscopes

/-! ### Checks and declarations keep the invariant -/

/-- Checks of a type in these scopes forget nothing and keep references enclosed. -/
def Encloses (scopes : List String) (e : TypeExpr) : Prop :=
  ∀ (route : Route) {s s' : Session} {u : Unit}, check scopes route e s = .ok u s' →
    Around scopes e s → Enclosed scopes s → s.Keeps s' ∧ Enclosed scopes s'

/-- Jobs enclose what they do one by one, the later ones in richer sessions. -/
theorem enclosed_of_checkAll {jobs : List (Route × TypeExpr)}
    (ih : ∀ job ∈ jobs, Encloses scopes job.2) (h : checkAll scopes jobs s = .ok u s')
    (haround : ∀ job ∈ jobs, Around scopes job.2 s) (hs : Enclosed scopes s) :
    s.Keeps s' ∧ Enclosed scopes s' := by
  induction jobs generalizing s with
  | nil =>
    obtain rfl := checkAll_nil_iff.1 h
    exact ⟨.refl _, hs⟩
  | cons job rest ihrest =>
    rw [List.forall_mem_cons] at ih haround
    obtain ⟨t, hjob, hrest⟩ := checkAll_cons_iff.1 h
    obtain ⟨hkeeps, ht⟩ := ih.1 job.1 hjob haround.1 hs
    obtain ⟨hkeeps', hs'⟩ := ihrest ih.2 hrest (fun j hj => (haround.2 j hj).mono hkeeps) ht
    exact ⟨hkeeps.trans hkeeps', hs'⟩

/-- An alias is around its own definition, so the references in it are enclosed. -/
theorem encloses_alias (ih : ∀ scopes, Encloses scopes definition) :
    Encloses scopes (.alias name definition) := by
  intro route s s' u h haround hs
  obtain ⟨new, t, hregister, h⟩ := check_alias_iff.1 h
  obtain ⟨-, hregistered⟩ := register_iff.1 hregister
  cases hregistered with
  | json _ =>
    obtain rfl := h
    exact ⟨.refl _, hs⟩
  | known _ _ =>
    obtain rfl := h
    exact ⟨.refl _, hs⟩
  | new _ hnew =>
    rw [if_pos (by simp [haround.not_mem hnew])] at h
    obtain ⟨t, hcheck, rfl⟩ := h
    have hinside := haround.enter hnew
    have hkeeps := keeps_enter definition hnew
    obtain ⟨hkeeps', ht⟩ := ih _ (route ++ [name]) hcheck (hinside.child List.mem_cons_self)
      (hs.enter hnew)
    have hknows : t.Knows name definition := hkeeps'.knows _ _ knows_enter
    have hfill := keeps_fillPlace t name (definition.declarationText name)
    exact ⟨(hkeeps.trans hkeeps').trans hfill, ht.leave hknows (hinside.mono hkeeps') hcheck⟩

/-- A check that ends well keeps references enclosed. -/
theorem check_encloses (e : TypeExpr) (scopes : List String) : Encloses scopes e := by
  -- By the form of the type: the aliases around it are around its parts.
  induction e generalizing scopes with
  | primitive kind =>
    intro route s s' u h _ hs
    obtain rfl := check_primitive_iff.1 h
    exact ⟨.refl _, hs⟩
  | literal value =>
    intro route s s' u h _ hs
    obtain rfl := check_literal_iff.1 h
    exact ⟨.refl _, hs⟩
  | reference name =>
    intro route s s' u h _ hs
    obtain ⟨-, rfl⟩ := check_reference_iff.1 h
    exact ⟨.refl _, hs⟩
  | optional e ih =>
    intro route s s' u h
    exact absurd h check_optional_ne_ok
  | listOf e ih =>
    intro route s s' u h haround hs
    exact ih scopes (route ++ [listStep]) h (haround.child List.mem_cons_self) hs
  | dictOf e ih =>
    intro route s s' u h haround hs
    exact ih scopes (route ++ [dictStep]) h (haround.child List.mem_cons_self) hs
  | record fields ih =>
    intro route s s' u h haround hs
    obtain ⟨-, hall⟩ := check_record_iff.1 h
    refine enclosed_of_checkAll ?_ hall ?_ hs
    · exact List.forall_mem_map.2 fun f hf => (ih f hf).2 scopes
    · exact List.forall_mem_map.2 fun f hf => (haround.child (mem_children_record hf)).unmarked
  | union variants ih =>
    intro route s s' u h haround hs
    obtain ⟨-, hall⟩ := check_union_iff.1 h
    refine enclosed_of_checkAll ?_ hall ?_ hs
    · exact List.forall_mem_map.2 fun v hv => ih v hv scopes
    · exact List.forall_mem_map.2 fun v hv => haround.child hv
  | «alias» name definition ih => exact encloses_alias ih

/-- A declaration that ends well keeps references enclosed. -/
theorem Enclosed.declare (hs : Enclosed [] s) (hjson : name ≠ jsonValueName)
    (h : declare name definition route s = .ok text s') : Enclosed [] s' := by
  obtain ⟨-, -, new, t, hregistered, hcheck⟩ := (declare_iff hjson).1 h
  have hknows : (t.closePlace name).Knows name definition := hregistered.knows hjson
  have haround : Around [name] (.alias name definition) (t.closePlace name) :=
    List.forall_mem_singleton.2 (holds_of_knows hknows)
  have ht : Enclosed [name] (t.closePlace name) := by
    intro n m hn hscopes
    -- The only alias that is new is the declared one, which is in scope.
    rcases hregistered.knows_or hn with hn | heq
    · exact (hs n m hn List.not_mem_nil).mono (hregistered.keeps.trans (keeps_closePlace t name))
    · exact absurd (List.mem_singleton.2 (congrArg Prod.fst heq)) hscopes
  obtain ⟨hkeeps, hs'⟩ :=
    check_encloses definition [name] _ hcheck (haround.child List.mem_cons_self) ht
  exact hs'.leave (hkeeps.knows _ _ hknows) (haround.mono hkeeps) hcheck

end BoundaryTypes.Session
