/-
  `Walk` — the parts of a type, each before its own parts.

  A visit keeps the types still to visit on a stack. A step takes the type on top, visits it and
  puts its children in its place, the last child first, so that the first child comes next. `walk`
  goes on until the stack is empty; each step takes one part off the stack for good, so the parts
  on it become fewer. `preorder` says the same by recursion on the type. Whether a type mentions
  a name is asked of the visited types.
-/
import BoundaryTypes.TypeExpr.Basic

namespace BoundaryTypes

namespace TypeExpr

mutual

/-- The number of parts of a type, itself included. -/
def size : TypeExpr → Nat
  | .primitive _ | .literal _ | .reference _ => 1
  | .listOf e | .dictOf e | .optional e | .alias _ e => e.size + 1
  | .record fields => sizeFields fields + 1
  | .union variants => sizeVariants variants + 1

/-- The number of parts of the types of fields. -/
def sizeFields : List (String × TypeExpr) → Nat
  | [] => 0
  | (_, e) :: rest => e.size + sizeFields rest

/-- The number of parts of variants. -/
def sizeVariants : List TypeExpr → Nat
  | [] => 0
  | e :: rest => e.size + sizeVariants rest

end

theorem sizeVariants_append (es fs : List TypeExpr) :
    sizeVariants (es ++ fs) = sizeVariants es + sizeVariants fs := by
  induction es with
  | nil => simp [sizeVariants]
  | cons e es ih => simp [sizeVariants, ih, Nat.add_assoc]

theorem sizeFields_eq (fields : List (String × TypeExpr)) :
    sizeFields fields = sizeVariants (fields.map (·.2)) := by
  induction fields with
  | nil => rfl
  | cons f rest ih => simp [sizeFields, sizeVariants, ih]

/-- A type has one part more than its children together. -/
theorem size_eq (e : TypeExpr) : e.size = sizeVariants e.children + 1 := by
  cases e <;> simp [size, children, sizeVariants, sizeFields_eq]

end TypeExpr

open TypeExpr

/-- How far the visit of a type has come. -/
structure Visit where
  /-- The types still to visit, the next one last. -/
  stack : Array TypeExpr
  /-- The visited types in order. -/
  visited : Array TypeExpr

namespace Visit

variable {v w : Visit}

/-- The visit of a type before its first step. -/
def start (e : TypeExpr) : Visit := ⟨#[e], #[]⟩

/-- A step visits the last type on the stack, which gives way to its children. None is left when the
stack is empty. -/
def step? (v : Visit) : Option Visit :=
  v.stack.back?.map fun e => ⟨v.stack.pop ++ e.children.reverse.toArray, v.visited.push e⟩

/-- The types still to visit, the next one first. -/
def pending (v : Visit) : List TypeExpr := v.stack.toList.reverse

/-- The children of the visited type come before everything else that is pending. -/
theorem step?_eq_some (h : v.step? = some w) : ∃ e rest, v.pending = e :: rest ∧
    w.pending = e.children ++ rest ∧ w.visited.toList = v.visited.toList ++ [e] := by
  obtain ⟨e, he, rfl⟩ := Option.map_eq_some_iff.1 h
  rw [← Array.getLast?_toList] at he
  obtain ⟨below, hstack⟩ := List.getLast?_eq_some_iff.1 he
  refine ⟨e, below.reverse, ?_, ?_, Array.toList_push⟩
  · rw [pending, hstack, List.reverse_concat]
  · rw [pending, Array.toList_append, List.toList_toArray, Array.toList_pop, hstack,
      List.dropLast_concat, List.reverse_append, List.reverse_reverse]

theorem step?_eq_none : v.step? = none ↔ v.pending = [] := by
  rw [step?, Option.map_eq_none_iff, ← Array.getLast?_toList, List.getLast?_eq_none_iff, pending,
    List.reverse_eq_nil_iff]

/-- A step leaves one part less to visit. -/
theorem size_step? (h : v.step? = some w) :
    sizeVariants w.pending + 1 = sizeVariants v.pending := by
  obtain ⟨e, rest, hv, hw, -⟩ := step?_eq_some h
  rw [hv, hw, sizeVariants_append, sizeVariants, size_eq e]
  omega

/-- Steps until none is left, and gives the visited types. -/
def run (v : Visit) : List TypeExpr :=
  match _h : v.step? with
  | none => v.visited.toList
  | some next => next.run
termination_by sizeVariants v.pending
decreasing_by
  have := size_step? _h
  omega

end Visit

namespace TypeExpr

/-- The parts of a type in the order of a visit, the type itself first. -/
def walk (e : TypeExpr) : List TypeExpr := (Visit.start e).run

mutual

/-- The parts of a type by recursion: itself, then the parts of each child. -/
def preorder : TypeExpr → List TypeExpr
  | .primitive k => [.primitive k]
  | .literal s => [.literal s]
  | .reference n => [.reference n]
  | .listOf e => .listOf e :: e.preorder
  | .dictOf e => .dictOf e :: e.preorder
  | .optional e => .optional e :: e.preorder
  | .alias n e => .alias n e :: e.preorder
  | .record fields => .record fields :: preorderFields fields
  | .union variants => .union variants :: preorderVariants variants

/-- The parts of the types of fields. -/
def preorderFields : List (String × TypeExpr) → List TypeExpr
  | [] => []
  | (_, e) :: rest => e.preorder ++ preorderFields rest

/-- The parts of variants. -/
def preorderVariants : List TypeExpr → List TypeExpr
  | [] => []
  | e :: rest => e.preorder ++ preorderVariants rest

end

/-- Whether some alias or reference in a type has the name. -/
def mentions (e : TypeExpr) (name : String) : Bool :=
  e.walk.any fun part => part.mentioned? == some name

end TypeExpr

end BoundaryTypes
