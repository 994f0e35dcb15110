/-
  `TypeExpr` — the types that cross the boundary of a module.

  A type expression describes a value that is sent as JSON: a primitive, a list, a
  map from strings, one fixed text, an object with named fields, or a choice of
  variants. An alias gives a type a name, and a reference inside its definition
  stands for the alias itself. `optional` marks a record field whose key may be
  missing. Field and variant order is part of a type.
-/
import BoundaryTypes.Identifier

namespace BoundaryTypes

/-- The types without parts. -/
inductive Primitive where
  | string
  | number
  | boolean
  | null
deriving DecidableEq, Repr

/-- The word for a primitive, both in messages and in declarations. -/
def Primitive.word : Primitive → String
  | .string => "string"
  | .number => "number"
  | .boolean => "boolean"
  | .null => "null"

/-- A type expression. -/
inductive TypeExpr where
  | primitive (kind : Primitive)
  | listOf (element : TypeExpr)
  | dictOf (value : TypeExpr)
  | literal (value : String)
  | optional (inner : TypeExpr)
  | record (fields : List (String × TypeExpr))
  | union (variants : List TypeExpr)
  | alias (name : String) (definition : TypeExpr)
  | reference (name : String)
deriving Repr, Inhabited

namespace TypeExpr

mutual

/-- Structural equality. -/
def beq : TypeExpr → TypeExpr → Bool
  | .primitive k, .primitive l => k == l
  | .listOf a, .listOf b => beq a b
  | .dictOf a, .dictOf b => beq a b
  | .literal s, .literal t => s == t
  | .optional a, .optional b => beq a b
  | .record fs, .record gs => beqFields fs gs
  | .union vs, .union ws => beqVariants vs ws
  | .alias m a, .alias n b => m == n && beq a b
  | .reference m, .reference n => m == n
  | _, _ => false

/-- Structural equality of fields, in order. -/
def beqFields : List (String × TypeExpr) → List (String × TypeExpr) → Bool
  | [], [] => true
  | (m, a) :: fs, (n, b) :: gs => m == n && beq a b && beqFields fs gs
  | _, _ => false

/-- Structural equality of variants, in order. -/
def beqVariants : List TypeExpr → List TypeExpr → Bool
  | [], [] => true
  | a :: vs, b :: ws => beq a b && beqVariants vs ws
  | _, _ => false

end

mutual

theorem beq_iff : ∀ a b : TypeExpr, beq a b = true ↔ a = b
  | .primitive k, b => by cases b <;> simp [beq]
  | .listOf a, b => by cases b <;> simp [beq, beq_iff a]
  | .dictOf a, b => by cases b <;> simp [beq, beq_iff a]
  | .literal s, b => by cases b <;> simp [beq]
  | .optional a, b => by cases b <;> simp [beq, beq_iff a]
  | .record fs, b => by cases b <;> simp [beq, beqFields_iff fs]
  | .union vs, b => by cases b <;> simp [beq, beqVariants_iff vs]
  | .alias n a, b => by cases b <;> simp [beq, beq_iff a]
  | .reference n, b => by cases b <;> simp [beq]

theorem beqFields_iff : ∀ fs gs : List (String × TypeExpr), beqFields fs gs = true ↔ fs = gs
  | [], gs => by cases gs <;> simp [beqFields]
  | (n, a) :: fs, gs => by
    cases gs with
    | nil => simp [beqFields]
    | cons g gs =>
      obtain ⟨m, b⟩ := g
      simp [beqFields, beq_iff a, beqFields_iff fs, and_assoc]

theorem beqVariants_iff : ∀ vs ws : List TypeExpr, beqVariants vs ws = true ↔ vs = ws
  | [], ws => by cases ws <;> simp [beqVariants]
  | a :: vs, ws => by
    cases ws with
    | nil => simp [beqVariants]
    | cons b ws => simp [beqVariants, beq_iff a, beqVariants_iff vs]

end

instance : DecidableEq TypeExpr := fun a b => decidable_of_iff _ (beq_iff a b)

/-- The type of arbitrary JSON: an alias defined by a reference to itself. -/
def jsonValue : TypeExpr := .alias jsonValueName (.reference jsonValueName)

/-- The parts of a type, in order. -/
def children : TypeExpr → List TypeExpr
  | .primitive _ | .literal _ | .reference _ => []
  | .listOf e | .dictOf e | .optional e | .alias _ e => [e]
  | .record fields => fields.map (·.2)
  | .union variants => variants

/-- The name of the form of a type, for messages. -/
def formName : TypeExpr → String
  | .primitive _ => "Primitive"
  | .listOf _ => "ListOf"
  | .dictOf _ => "DictOf"
  | .literal _ => "Literal"
  | .optional _ => "Optional"
  | .record _ => "Record"
  | .union _ => "Union"
  | .alias _ _ => "NamedAlias"
  | .reference _ => "SelfReference"

/-- Whether a type is a union. -/
def isUnion : TypeExpr → Bool
  | .union _ => true
  | _ => false

/-- A union of two or more variants. -/
def isWideUnion : TypeExpr → Bool
  | .union (_ :: _ :: _) => true
  | _ => false

/-- The text of a literal type. -/
def literal? : TypeExpr → Option String
  | .literal s => some s
  | _ => none

/-- The fields of a record type. -/
def fields? : TypeExpr → Option (List (String × TypeExpr))
  | .record fields => some fields
  | _ => none

/-- The name an alias or a reference mentions. -/
def mentioned? : TypeExpr → Option String
  | .alias n _ | .reference n => some n
  | _ => none

/-- The type of a field: the first one of that name. -/
def field? (fields : List (String × TypeExpr)) (name : String) : Option TypeExpr :=
  (fields.find? fun f => f.1 = name).map (·.2)

end TypeExpr

/-! ### Building unions and records -/

/-- The field that tells the variants of a union apart. -/
def tagField : String := "tag"

namespace TypeExpr

/-- A variant with a tag: the tag's literal comes before the other fields. -/
def tagged (tag : String) (fields : List (String × TypeExpr)) : TypeExpr :=
  .record ((tagField, .literal tag) :: fields)

/-- A union of tagged variants. -/
def taggedUnion (variants : List (String × List (String × TypeExpr))) : TypeExpr :=
  .union (variants.map fun v => tagged v.1 v.2)

/-- A union of texts. -/
def enumeration (values : List String) : TypeExpr := .union (values.map .literal)

end TypeExpr

end BoundaryTypes
