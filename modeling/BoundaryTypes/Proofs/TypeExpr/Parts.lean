/-
  `Parts` — what is known of the parts of a type.

  From the sizes of parts follows an induction over types in which a record and a union
  supply the hypothesis for each of their members.

  `Everywhere P e` asks `P` of every part of `e`; the conditions that codec and
  session impose are of this kind. `aliases e` lists the aliases in a type with their
  definitions, in the order of the visit.
-/
import BoundaryTypes.Proofs.TypeExpr.Visit

namespace BoundaryTypes.TypeExpr

/-! ### Sizes and induction -/

theorem size_le_sizeVariants {c : TypeExpr} {es : List TypeExpr} (h : c ∈ es) :
    c.size ≤ sizeVariants es := by
  induction es with
  | nil => cases h
  | cons e rest ih =>
    rw [sizeVariants]
    rcases List.mem_cons.1 h with rfl | h
    · exact Nat.le_add_right _ _
    · exact Nat.le_add_left_of_le (ih h)

/-- A child is smaller than the type it is a child of, which carries the inductions on sizes. -/
theorem size_lt_of_mem_children {c e : TypeExpr} (h : c ∈ e.children) : c.size < e.size := by
  rw [size_eq e]
  exact Nat.lt_succ_of_le (size_le_sizeVariants h)

/-- The type that a field holds when its key is there. -/
def unmarked : TypeExpr → TypeExpr
  | .optional e => e
  | e => e

theorem size_unmarked_le (e : TypeExpr) : e.unmarked.size ≤ e.size := by
  cases e with
  | optional e => exact Nat.le_succ _
  | _ => exact Nat.le_refl _

theorem mem_children_record {f : String × TypeExpr} {fields : List (String × TypeExpr)}
    (h : f ∈ fields) : f.2 ∈ (record fields).children :=
  List.mem_map_of_mem h

/-- The type of a field without its mark is no larger than the record around it. -/
theorem size_unmarked_le_record {f : String × TypeExpr} {fields : List (String × TypeExpr)}
    (h : f ∈ fields) : f.2.unmarked.size ≤ (record fields).size :=
  Nat.le_trans (size_unmarked_le f.2)
    (Nat.le_of_lt (size_lt_of_mem_children (mem_children_record h)))

/-- Induction on the size of a type. -/
theorem size_induction {motive : TypeExpr → Prop}
    (step : ∀ e, (∀ p, p.size < e.size → motive p) → motive e) (e : TypeExpr) : motive e := by
  induction e using (measure size).wf.induction with
  | h e ih => exact step e ih

/-- Induction over types: the members of a record and of a union have the property already, those
of a record also without the mark of a key that may be missing. -/
@[elab_as_elim, induction_eliminator]
theorem induction {motive : TypeExpr → Prop} (primitive : ∀ kind, motive (.primitive kind))
    (listOf : ∀ element, motive element → motive (.listOf element))
    (dictOf : ∀ value, motive value → motive (.dictOf value))
    (literal : ∀ value, motive (.literal value))
    (optional : ∀ inner, motive inner → motive (.optional inner))
    (record : ∀ fields, (∀ f ∈ fields, motive f.2 ∧ motive f.2.unmarked) → motive (.record fields))
    (union : ∀ variants, (∀ v ∈ variants, motive v) → motive (.union variants))
    («alias» : ∀ name definition, motive definition → motive (.alias name definition))
    (reference : ∀ name, motive (.reference name)) (e : TypeExpr) : motive e := by
  induction e using size_induction with
  | _ e ih =>
    -- Children are smaller, and no type gets larger without the mark of its key.
    have hc : ∀ c ∈ e.children, motive c := fun c hc => ih c (size_lt_of_mem_children hc)
    cases e with
    | primitive kind => exact primitive kind
    | listOf element => exact listOf element (hc _ List.mem_cons_self)
    | dictOf value => exact dictOf value (hc _ List.mem_cons_self)
    | literal value => exact literal value
    | optional inner => exact optional inner (hc _ List.mem_cons_self)
    | record fields =>
      refine record fields fun f hf => ⟨hc _ (mem_children_record hf), ih _ ?_⟩
      exact Nat.lt_of_le_of_lt (size_unmarked_le f.2)
        (size_lt_of_mem_children (mem_children_record hf))
    | union variants => exact union variants hc
    | «alias» name definition => exact «alias» name definition (hc _ List.mem_cons_self)
    | reference name => exact reference name

/-- The parts of a part are parts. -/
theorem mem_preorder_trans {p q e : TypeExpr} (hp : p ∈ q.preorder) (hq : q ∈ e.preorder) :
    p ∈ e.preorder := by
  rw [mem_preorder_iff_hasPart] at hp hq ⊢
  exact hq.trans hp

/-! ### Conditions on every part -/

/-- Every part of a type has the property. -/
def Everywhere (P : TypeExpr → Prop) (e : TypeExpr) : Prop := ∀ p ∈ e.preorder, P p

/-- A condition holds everywhere when it holds here and everywhere in the children; one form for
each kind of type follows. -/
theorem everywhere_iff {P : TypeExpr → Prop} {e : TypeExpr} :
    e.Everywhere P ↔ P e ∧ ∀ c ∈ e.children, c.Everywhere P := by
  constructor
  · intro h
    exact ⟨h e (mem_preorder_self e), fun c hc p hp => h p (mem_preorder_iff.2 (.inr ⟨c, hc, hp⟩))⟩
  · rintro ⟨he, hc⟩ p hp
    rcases mem_preorder_iff.1 hp with rfl | ⟨c, hmem, hp⟩
    · exact he
    · exact hc c hmem p hp

section

variable {P : TypeExpr → Prop} {e : TypeExpr} {name value : String}

theorem everywhere_primitive {kind : Primitive} :
    (primitive kind).Everywhere P ↔ P (primitive kind) := by
  rw [everywhere_iff]; simp [children]

theorem everywhere_literal : (literal value).Everywhere P ↔ P (literal value) := by
  rw [everywhere_iff]; simp [children]

theorem everywhere_reference : (reference name).Everywhere P ↔ P (reference name) := by
  rw [everywhere_iff]; simp [children]

theorem everywhere_listOf : (listOf e).Everywhere P ↔ P (listOf e) ∧ e.Everywhere P := by
  rw [everywhere_iff]; simp [children]

theorem everywhere_dictOf : (dictOf e).Everywhere P ↔ P (dictOf e) ∧ e.Everywhere P := by
  rw [everywhere_iff]; simp [children]

theorem everywhere_optional : (optional e).Everywhere P ↔ P (optional e) ∧ e.Everywhere P := by
  rw [everywhere_iff]; simp [children]

theorem everywhere_alias :
    (TypeExpr.alias name e).Everywhere P ↔ P (.alias name e) ∧ e.Everywhere P := by
  rw [everywhere_iff]; simp [children]

theorem everywhere_record {fields : List (String × TypeExpr)} :
    (record fields).Everywhere P ↔ P (record fields) ∧ ∀ f ∈ fields, f.2.Everywhere P := by
  rw [everywhere_iff]
  show _ ∧ (∀ c ∈ fields.map (·.2), _) ↔ _
  rw [List.forall_mem_map]

theorem everywhere_union {variants : List TypeExpr} :
    (union variants).Everywhere P ↔ P (union variants) ∧ ∀ v ∈ variants, v.Everywhere P :=
  everywhere_iff

end

theorem Everywhere.self {P : TypeExpr → Prop} {e : TypeExpr} (h : e.Everywhere P) : P e :=
  (everywhere_iff.1 h).1

theorem Everywhere.imp {P Q : TypeExpr → Prop} {e : TypeExpr} (hpq : ∀ p, P p → Q p)
    (h : e.Everywhere P) : e.Everywhere Q :=
  fun p hp => hpq p (h p hp)

/-! ### Aliases -/

/-- The name and the definition of an alias. -/
def alias? : TypeExpr → Option (String × TypeExpr)
  | .alias name definition => some (name, definition)
  | _ => none

/-- The aliases in a type with their definitions, in the order of the visit. -/
def aliases (e : TypeExpr) : List (String × TypeExpr) := e.preorder.filterMap alias?

theorem alias?_eq_some {e : TypeExpr} {name : String} {definition : TypeExpr} :
    e.alias? = some (name, definition) ↔ e = .alias name definition := by
  cases e <;> simp [alias?]

/-- The aliases of a type are the aliases among its parts. -/
theorem mem_aliases {e : TypeExpr} {name : String} {definition : TypeExpr} :
    (name, definition) ∈ e.aliases ↔ .alias name definition ∈ e.preorder := by
  simp [aliases, alias?_eq_some]

/-- An alias comes before the aliases in its definition; any other type has those of its
children. -/
theorem aliases_eq (e : TypeExpr) : e.aliases = e.alias?.toList ++ e.children.flatMap aliases := by
  rw [aliases, preorder_eq, List.filterMap_cons, List.filterMap_flatMap]
  cases e.alias? <;> rfl

@[simp] theorem aliases_primitive (kind : Primitive) : (primitive kind).aliases = [] := rfl

@[simp] theorem aliases_literal (value : String) : (literal value).aliases = [] := rfl

@[simp] theorem aliases_reference (name : String) : (reference name).aliases = [] := rfl

@[simp] theorem aliases_listOf (e : TypeExpr) : (listOf e).aliases = e.aliases := by
  simp [aliases_eq (listOf e), alias?, children]

@[simp] theorem aliases_dictOf (e : TypeExpr) : (dictOf e).aliases = e.aliases := by
  simp [aliases_eq (dictOf e), alias?, children]

@[simp] theorem aliases_optional (e : TypeExpr) : (optional e).aliases = e.aliases := by
  simp [aliases_eq (optional e), alias?, children]

@[simp] theorem aliases_record (fields : List (String × TypeExpr)) :
    (record fields).aliases = fields.flatMap fun f => f.2.aliases := by
  simp [aliases_eq (record fields), alias?, children, List.flatMap_map]

@[simp] theorem aliases_union (variants : List TypeExpr) :
    (union variants).aliases = variants.flatMap aliases := by
  simp [aliases_eq (union variants), alias?, children]

@[simp] theorem aliases_alias (name : String) (definition : TypeExpr) :
    (TypeExpr.alias name definition).aliases = (name, definition) :: definition.aliases := by
  simp [aliases_eq (.alias name definition), alias?, children]

@[simp] theorem aliases_unmarked (e : TypeExpr) : e.unmarked.aliases = e.aliases := by
  cases e <;> simp [unmarked]

end BoundaryTypes.TypeExpr
