/-
  `Learning` — what a session knows after it met aliases.

  `learn` is the effect of a check on a session: every alias of a type that is not
  known yet becomes known, and its declaration takes a place, in the order of the
  visit. A session never forgets a definition (`Keeps`), and it learns no other
  aliases than those it met.
-/
import BoundaryTypes.Proofs.Session.Steps

namespace BoundaryTypes.Session

open TypeExpr

variable {s t : Session} {name n text : String} {definition D : TypeExpr}
  {met : List (String × TypeExpr)}

/-- Whether a session knows an alias. -/
def Knows (s : Session) (name : String) (definition : TypeExpr) : Prop :=
  s.definition? name = some definition

/-- A session knows at most one definition of a name. -/
theorem Knows.unique (h : s.Knows n definition) (h' : s.Knows n D) : definition = D :=
  Option.some.inj (h.symm.trans h')

theorem not_knows_of_eq_none (h : s.definition? n = none) : ¬ s.Knows n D := by
  intro hD
  rw [Knows, h] at hD
  cases hD

/-- A new definition is found first, and those of other names as before. -/
theorem definition?_define :
    (s.define name definition).definition? n = if n = name then some definition
      else s.definition? n := by
  rw [definition?, define, List.find?_cons]
  split
  · next h => rw [if_pos (of_decide_eq_true h).symm]; rfl
  · next h => rw [if_neg fun heq => of_decide_eq_false h heq.symm]; rfl

/-- A session with one more alias knows that alias, and the others as before. -/
theorem knows_define_iff :
    (s.define name definition).Knows n D ↔
      (n = name ∧ D = definition) ∨ (n ≠ name ∧ s.Knows n D) := by
  rw [Knows, definition?_define]
  split
  · next heq => simp [heq, eq_comm]
  · next hne => simp [hne, Knows]

theorem knows_define : (s.define name definition).Knows name definition :=
  knows_define_iff.2 (.inl ⟨rfl, rfl⟩)

/-! ### No definition is forgotten -/

/-- A later session knows everything that an earlier one knew. -/
structure Keeps (s t : Session) : Prop where
  reserved : t.reserved = s.reserved
  knows : ∀ n D, s.Knows n D → t.Knows n D

theorem Keeps.refl (s : Session) : s.Keeps s := ⟨rfl, fun _ _ h => h⟩

theorem Keeps.trans {r : Session} (h : r.Keeps s) (h' : s.Keeps t) : r.Keeps t :=
  ⟨h'.reserved.trans h.reserved, fun n D hn => h'.knows n D (h.knows n D hn)⟩

/-- A new name takes nothing from what is known. -/
theorem keeps_define (definition : TypeExpr) (h : s.definition? name = none) :
    s.Keeps (s.define name definition) := by
  refine ⟨rfl, fun n D hn => knows_define_iff.2 (.inr ⟨?_, hn⟩)⟩
  rintro rfl
  exact not_knows_of_eq_none h hn

/-! Places are no matter of what is known. -/

theorem keeps_openPlace (s : Session) (name : String) : s.Keeps (s.openPlace name) :=
  ⟨rfl, fun _ _ h => h⟩

theorem keeps_fillPlace (s : Session) (name text : String) : s.Keeps (s.fillPlace name text) :=
  ⟨rfl, fun _ _ h => h⟩

theorem keeps_closePlace (s : Session) (name : String) : s.Keeps (s.closePlace name) :=
  ⟨rfl, fun _ _ h => h⟩

/-! ### Meeting an alias -/

/-- Whether an alias of the name changes nothing. -/
def Settles (s : Session) (name : String) : Prop :=
  name = jsonValueName ∨ (s.definition? name).isSome = true

instance (s : Session) (name : String) : Decidable (s.Settles name) :=
  inferInstanceAs (Decidable (_ ∨ _))

/-- A session that has met an alias: it is known, and its declaration has a place at the end. -/
def meet (s : Session) (a : String × TypeExpr) : Session :=
  if s.Settles a.1 then s
  else
    { s.define a.1 a.2 with hoisted := s.hoisted ++ [(a.1, some (a.2.declarationText a.1))] }

/-- A session that has met aliases one after another. -/
def learn (s : Session) (met : List (String × TypeExpr)) : Session := met.foldl meet s

theorem learn_cons {a : String × TypeExpr} : s.learn (a :: met) = (s.meet a).learn met := rfl

/-- Aliases are learned in the order in which they are met. -/
theorem learn_append {others : List (String × TypeExpr)} :
    s.learn (met ++ others) = (s.learn met).learn others := List.foldl_append

theorem settles_of_knows (h : s.Knows n D) : s.Settles n := by
  refine .inr ?_
  rw [h]
  rfl

theorem Keeps.settles (h : s.Keeps t) (hn : s.Settles n) : t.Settles n := by
  refine hn.imp_right fun hn => ?_
  obtain ⟨D, hD⟩ := Option.isSome_iff_exists.1 hn
  rw [h.knows n D hD]
  rfl

/-- An alias whose name is settled is met without a change. -/
theorem meet_of_settles {a : String × TypeExpr} (h : s.Settles a.1) : s.meet a = s := if_pos h

/-- An alias whose name is not settled is defined, and its declaration is hoisted. -/
theorem meet_of_not_settles {a : String × TypeExpr} (h : ¬ s.Settles a.1) :
    s.meet a = { s.define a.1 a.2 with
      hoisted := s.hoisted ++ [(a.1, some (a.2.declarationText a.1))] } := if_neg h

theorem definition?_eq_none_of_not_settles (h : ¬ s.Settles n) : s.definition? n = none := by
  cases hn : s.definition? n with
  | none => rfl
  | some D => exact absurd (settles_of_knows hn) h

/-- What a session knows after it met a new alias. -/
theorem knows_meet_of_not_settles {a : String × TypeExpr} (h : ¬ s.Settles a.1) :
    (s.meet a).Knows n D ↔ (s.define a.1 a.2).Knows n D := by
  rw [meet_of_not_settles h]
  rfl

theorem keeps_meet (a : String × TypeExpr) : s.Keeps (s.meet a) := by
  by_cases h : s.Settles a.1
  · rw [meet_of_settles h]
    exact .refl s
  · have hkeeps := keeps_define a.2 (definition?_eq_none_of_not_settles h)
    refine ⟨?_, fun n D hD => (knows_meet_of_not_settles h).2 (hkeeps.knows n D hD)⟩
    rw [meet_of_not_settles h]
    rfl

/-- What is learned takes nothing from what was known. -/
theorem keeps_learn (met : List (String × TypeExpr)) : s.Keeps (s.learn met) := by
  induction met generalizing s with
  | nil => exact .refl s
  | cons a met ih => exact (keeps_meet a).trans ih

/-- An alias that changes nothing stays so, and aliases that change nothing may be met at will. -/
theorem learn_of_settles (h : ∀ a ∈ met, s.Settles a.1) : s.learn met = s := by
  induction met with
  | nil => rfl
  | cons a met ih =>
    rw [List.forall_mem_cons] at h
    rw [learn_cons, meet_of_settles h.1, ih h.2]

/-- After an alias is met, a session knows what it knew before, and that alias. -/
theorem knows_meet {a : String × TypeExpr} (h : (s.meet a).Knows n D) :
    s.Knows n D ∨ (n ≠ jsonValueName ∧ (n, D) = a) := by
  by_cases hsettles : s.Settles a.1
  · rw [meet_of_settles hsettles] at h
    exact .inl h
  · rw [knows_meet_of_not_settles hsettles] at h
    rcases knows_define_iff.1 h with ⟨rfl, rfl⟩ | ⟨-, h⟩
    · exact .inr ⟨fun hjson => hsettles (.inl hjson), rfl⟩
    · exact .inl h

/-- A session learns only aliases that it met, and never the type of arbitrary JSON. -/
theorem knows_learn (h : (s.learn met).Knows n D) :
    s.Knows n D ∨ (n ≠ jsonValueName ∧ (n, D) ∈ met) := by
  induction met generalizing s with
  | nil => exact .inl h
  | cons a met ih =>
    rcases ih h with h | ⟨hjson, h⟩
    · rcases knows_meet h with h | ⟨hjson, rfl⟩
      · exact .inl h
      · exact .inr ⟨hjson, List.mem_cons_self⟩
    · exact .inr ⟨hjson, List.mem_cons_of_mem _ h⟩

/-! ### Filling a place -/

/-- The place of a known alias may be filled before or after other aliases are met. -/
theorem fillPlace_meet {a : String × TypeExpr} (h : s.Settles name) :
    (s.meet a).fillPlace name text = (s.fillPlace name text).meet a := by
  have hsettles : (s.fillPlace name text).Settles a.1 ↔ s.Settles a.1 := Iff.rfl
  by_cases ha : s.Settles a.1
  · rw [meet_of_settles ha, meet_of_settles (hsettles.2 ha)]
  · have hne : a.1 ≠ name := fun heq => ha (heq ▸ h)
    rw [meet_of_not_settles ha, meet_of_not_settles fun h => ha (hsettles.1 h)]
    simp only [fillPlace, define, List.map_append, List.map_cons, List.map_nil, if_neg hne]

/-- The place of a settled name may be filled before or after other aliases are learned. -/
theorem fillPlace_learn (h : s.Settles name) :
    (s.learn met).fillPlace name text = (s.fillPlace name text).learn met := by
  induction met generalizing s with
  | nil => rfl
  | cons a met ih =>
    rw [learn_cons, learn_cons, ih ((keeps_meet a).settles h), fillPlace_meet h]

/-- A session that turns to the definition of a new alias. -/
def enter (s : Session) (name : String) (definition : TypeExpr) : Session :=
  (s.define name definition).openPlace name

theorem knows_enter : (s.enter name definition).Knows name definition := knows_define

/-- To enter a new alias takes nothing from what is known. -/
theorem keeps_enter (definition : TypeExpr) (h : s.definition? name = none) :
    s.Keeps (s.enter name definition) :=
  (keeps_define definition h).trans (keeps_openPlace _ name)

/-- The places of other aliases stay as they are. -/
theorem map_fillPlace_of_not_mem {places : List (String × Option String)}
    (h : name ∉ places.map (·.1)) :
    (places.map fun place => if place.1 = name then (name, some text) else place) = places := by
  conv => rhs; rw [← List.map_id places]
  refine List.map_congr_left fun place hplace => if_neg ?_
  rintro rfl
  exact h (List.mem_map_of_mem hplace)

/-- To enter the definition of a new alias, and to fill its place, is to meet the alias. -/
theorem fillPlace_enter (hjson : name ≠ jsonValueName) (hnew : s.definition? name = none)
    (hfree : name ∉ s.hoisted.map (·.1)) :
    (s.enter name definition).fillPlace name (definition.declarationText name) =
      s.meet (name, definition) := by
  have hsettles : ¬ s.Settles name := by
    rintro (h | h)
    · exact hjson h
    · rw [hnew] at h
      cases h
  rw [meet_of_not_settles hsettles]
  simp only [fillPlace, enter, openPlace, define, List.map_append, List.map_cons, List.map_nil,
    if_pos, map_fillPlace_of_not_mem hfree]

end BoundaryTypes.Session
