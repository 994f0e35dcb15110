/-
  `Visit` — the visit of a type goes through its preorder.

  `preorder` has one equation for all forms: a type comes before the parts of its children
  (`preorder_eq`). A step of a visit keeps the visited types and the preorders of the pending
  ones together as one list (`step?_parts`), and moves one part from the second half to the
  first. So after `n` steps the first `n` parts are visited (`visited_after`), and a visit ends
  after as many steps as the type has parts.

  The parts of a type are the types that are reached from it through children (`HasPart`).
-/
import BoundaryTypes.TypeExpr.Walk
import Mathlib.Logic.Relation

namespace BoundaryTypes

namespace TypeExpr

variable {e p : TypeExpr}

/-! ### The preorder -/

theorem preorderFields_eq (fields : List (String × TypeExpr)) :
    preorderFields fields = (fields.map (·.2)).flatMap preorder := by
  induction fields with
  | nil => rfl
  | cons f rest ih => rw [preorderFields, ih, List.map_cons, List.flatMap_cons]

theorem preorderVariants_eq (variants : List TypeExpr) :
    preorderVariants variants = variants.flatMap preorder := by
  induction variants with
  | nil => rfl
  | cons v rest ih => rw [preorderVariants, ih, List.flatMap_cons]

/-- A type comes first, then the parts of each child. -/
theorem preorder_eq (e : TypeExpr) : e.preorder = e :: e.children.flatMap preorder := by
  cases e with
  | record fields => rw [preorder, preorderFields_eq]; rfl
  | union variants => rw [preorder, preorderVariants_eq]; rfl
  | _ => simp [preorder, children]

theorem mem_preorder_self (e : TypeExpr) : e ∈ e.preorder := by
  rw [preorder_eq]
  exact List.mem_cons_self

/-- A part of a type is the type itself or a part of a child. -/
theorem mem_preorder_iff {p e : TypeExpr} :
    p ∈ e.preorder ↔ p = e ∨ ∃ c ∈ e.children, p ∈ c.preorder := by
  rw [preorder_eq, List.mem_cons, List.mem_flatMap]

/-! ### Parts at any depth -/

/-- A type has itself as a part, its children, their children, and so on. -/
def HasPart : TypeExpr → TypeExpr → Prop := Relation.ReflTransGen fun e c => c ∈ e.children

theorem HasPart.trans {q : TypeExpr} (hq : e.HasPart q) (hp : q.HasPart p) : e.HasPart p :=
  Relation.ReflTransGen.trans hq hp

/-- A part of a type is met in its preorder. -/
theorem HasPart.mem_preorder (h : e.HasPart p) : p ∈ e.preorder := by
  induction h using Relation.ReflTransGen.head_induction_on with
  | refl => exact mem_preorder_self p
  | head hc _ ih => exact mem_preorder_iff.2 (.inr ⟨_, hc, ih⟩)

end TypeExpr

namespace Visit

open TypeExpr

variable {v w : Visit} {p : TypeExpr}

/-! ### Steps -/

/-- The parts that a visit goes through: those visited already and those of the pending types. -/
def parts (v : Visit) : List TypeExpr := v.visited.toList ++ v.pending.flatMap preorder

/-- A step keeps the parts and their order. -/
theorem step?_parts (h : v.step? = some w) : w.parts = v.parts := by
  obtain ⟨e, rest, hv, hw, hvisited⟩ := step?_eq_some h
  -- The visited type goes over; its children, left on the stack, have the rest of its preorder.
  rw [parts, parts, hv, hw, hvisited, List.flatMap_append, List.flatMap_cons, preorder_eq e]
  simp only [List.append_assoc, List.cons_append, List.nil_append]

/-- A step visits one type. -/
theorem step?_visited (h : v.step? = some w) : w.visited.size = v.visited.size + 1 := by
  obtain ⟨e, rest, -, -, hvisited⟩ := step?_eq_some h
  rw [← Array.length_toList, hvisited, List.length_append, Array.length_toList,
    List.length_singleton]

/-- All types that a visit has come to are parts of the type. -/
def Within (root : TypeExpr) (v : Visit) : Prop :=
  (∀ q ∈ v.visited.toList, root.HasPart q) ∧ ∀ q ∈ v.pending, root.HasPart q

/-- A step comes to parts of the type only. -/
theorem step?_within {root : TypeExpr} (h : v.step? = some w) (hv : v.Within root) :
    w.Within root := by
  obtain ⟨e, rest, hpending, hnext, hvisited⟩ := step?_eq_some h
  obtain ⟨hseen, hrest⟩ := hv
  rw [hpending, List.forall_mem_cons] at hrest
  refine ⟨fun q hq => ?_, fun q hq => ?_⟩
  · rw [hvisited, List.mem_append, List.mem_singleton] at hq
    rcases hq with hq | rfl
    · exact hseen q hq
    · exact hrest.1
  · rw [hnext, List.mem_append] at hq
    rcases hq with hchild | hq
    · exact hrest.1.tail hchild
    · exact hrest.2 q hq

/-! ### Whole visits -/

/-- A visit after some steps, if it goes on for that long. -/
def after (v : Visit) : Nat → Option Visit
  | 0 => some v
  | n + 1 => v.step?.bind fun next => next.after n

/-- The visited types are the first ones of the parts. -/
theorem take_parts (v : Visit) : v.parts.take v.visited.size = v.visited.toList := by
  rw [parts, ← Array.length_toList, List.take_left]

/-- A visit takes as many steps as there are parts to visit, and one part with each of them. -/
theorem visited_after (v : Visit) (n : Nat) :
    (v.after n).map (·.visited.toList) =
      if n ≤ sizeVariants v.pending then some (v.parts.take (v.visited.size + n)) else none := by
  induction n generalizing v with
  | zero =>
    rw [if_pos (Nat.zero_le _), Nat.add_zero, take_parts]
    rfl
  | succ n ih =>
    rw [after]
    cases h : v.step? with
    | none =>
      -- Nothing is pending, so there is no first step of the `n + 1`.
      rw [step?_eq_none.1 h]
      rfl
    | some w =>
      have hsize : sizeVariants w.pending + 1 = sizeVariants v.pending := size_step? h
      have hcount : w.visited.size + n = v.visited.size + (n + 1) := by
        rw [step?_visited h]
        omega
      rw [Option.bind_some, ih w, step?_parts h, hcount, ← hsize]
      simp only [Nat.add_le_add_iff_right]

/-- A visit gives all its parts. -/
theorem run_eq (v : Visit) : v.run = v.parts := by
  fun_induction run v with
  | case1 v h =>
    rw [parts, step?_eq_none.1 h, List.flatMap_nil, List.append_nil]
  | case2 v w h ih => rw [ih, step?_parts h]

/-- A visit gives as many types as are visited and pending, with all their parts. -/
theorem length_run (v : Visit) : v.run.length = v.visited.size + sizeVariants v.pending := by
  fun_induction run v with
  | case1 v h =>
    rw [step?_eq_none.1 h, Array.length_toList]
    rfl
  | case2 v w h ih =>
    rw [ih, step?_visited h, ← size_step? h]
    omega

theorem run_within {root : TypeExpr} (hv : v.Within root) : ∀ q ∈ v.run, root.HasPart q := by
  fun_induction run v with
  | case1 v h => exact hv.1
  | case2 v w h ih => exact ih (step?_within h hv)

@[simp] theorem pending_start (e : TypeExpr) : (start e).pending = [e] := rfl

@[simp] theorem visited_start (e : TypeExpr) : (start e).visited = #[] := rfl

theorem parts_start (e : TypeExpr) : (start e).parts = e.preorder := by
  simp [parts]

end Visit

namespace TypeExpr

variable {e p : TypeExpr} {name : String}

/-- The types visited are those of the preorder. -/
theorem walk_eq_preorder (e : TypeExpr) : e.walk = e.preorder := by
  rw [walk, Visit.run_eq, Visit.parts_start]

/-- The walk comes to each part once. -/
theorem length_walk (e : TypeExpr) : e.walk.length = e.size := by
  rw [walk, Visit.length_run]
  simp [sizeVariants]

/-- The preorder of a type holds its parts and nothing else. -/
theorem mem_preorder_iff_hasPart : p ∈ e.preorder ↔ e.HasPart p := by
  refine ⟨fun h => ?_, HasPart.mem_preorder⟩
  have hstart : (Visit.start e).Within e := by
    refine ⟨nofun, fun q hq => ?_⟩
    rw [List.mem_singleton.1 hq]
    exact .refl
  rw [← walk_eq_preorder] at h
  exact Visit.run_within hstart p h

/-- A type mentions a name exactly when one of its parts is a reference to it or an alias of it. -/
theorem mentions_iff {e : TypeExpr} {name : String} :
    e.mentions name = true ↔ ∃ p ∈ e.preorder, p.mentioned? = some name := by
  rw [mentions, walk_eq_preorder]
  simp [List.any_eq_true]

theorem mentioned?_eq_some :
    p.mentioned? = some name ↔ p = .reference name ∨ ∃ definition, p = .alias name definition := by
  cases p <;> simp [mentioned?]

/-- **The visit of a type.** It takes one step for each part of the type and then ends; after `n`
steps it has visited the first `n` types of the preorder, in which a type comes first and then, one
child after another, the preorders of its children. So a type mentions a name if and only if a
reference or an alias of that name is a part of it, at whatever depth. -/
theorem walk_in_preorder (e : TypeExpr) :
    (∀ n, ((Visit.start e).after n).map (·.visited.toList) =
      if n ≤ e.size then some (e.preorder.take n) else none) ∧
    e.walk = e.preorder ∧ e.preorder = e :: e.children.flatMap preorder ∧
    e.walk.length = e.size ∧
    ∀ name, e.mentions name = true ↔
      ∃ p, e.HasPart p ∧ (p = .reference name ∨ ∃ definition, p = .alias name definition) := by
  refine ⟨fun n => ?_, walk_eq_preorder e, preorder_eq e, length_walk e, fun name => ?_⟩
  · have hsize : sizeVariants (Visit.start e).pending = e.size := Nat.add_zero _
    rw [Visit.visited_after, hsize, Visit.parts_start, Visit.visited_start, Array.size_empty,
      Nat.zero_add]
  · rw [mentions_iff]
    simp only [mem_preorder_iff_hasPart, mentioned?_eq_some]

end TypeExpr

end BoundaryTypes
