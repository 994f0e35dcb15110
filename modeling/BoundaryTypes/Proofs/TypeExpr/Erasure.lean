/-
  `Erasure` — what the text of a type keeps of it.

  The text shows an alias by its name and a union of one variant as the variant.
  `erase` takes away what is not shown. The erasure of a type that a session accepts
  is `Bare`: it has no definitions inside, every union has none or at least two
  variants, and keys that may be missing are keys of fields. It has the same text as
  the type (`shown_of_check`).
-/
import BoundaryTypes.Proofs.Session.Steps

namespace BoundaryTypes.TypeExpr

/-! ### Erasing definitions -/

/-- The union of some variants, one variant standing for itself. -/
def collapse : List TypeExpr → TypeExpr
  | [v] => v
  | variants => .union variants

mutual

/-- A type as it is shown: aliases by their names, and a union of one variant as the variant. -/
def erase : TypeExpr → TypeExpr
  | .primitive k => .primitive k
  | .literal s => .literal s
  | .listOf e => .listOf e.erase
  | .dictOf e => .dictOf e.erase
  | .optional e => .optional e.erase
  | .record fields => .record (eraseFields fields)
  | .union variants => collapse (eraseVariants variants)
  | .alias name _ => .reference name
  | .reference name => .reference name

/-- The fields of a record, shown. -/
def eraseFields : List (String × TypeExpr) → List (String × TypeExpr)
  | [] => []
  | (name, e) :: rest => (name, e.erase) :: eraseFields rest

/-- The variants of a union, shown. -/
def eraseVariants : List TypeExpr → List TypeExpr
  | [] => []
  | e :: rest => e.erase :: eraseVariants rest

end

theorem eraseFields_eq (fields : List (String × TypeExpr)) :
    eraseFields fields = fields.map fun f => (f.1, f.2.erase) := by
  induction fields with
  | nil => rfl
  | cons f rest ih => rw [eraseFields, ih, List.map_cons]

theorem eraseVariants_eq (variants : List TypeExpr) :
    eraseVariants variants = variants.map erase := by
  induction variants with
  | nil => rfl
  | cons v rest ih => rw [eraseVariants, ih, List.map_cons]

/-! ### Bare types -/

/-- A type without definitions inside. -/
inductive Bare : TypeExpr → Prop
  | primitive (kind : Primitive) : Bare (.primitive kind)
  | literal (value : String) : Bare (.literal value)
  | reference {name : String} (h : isTypeName name = true) : Bare (.reference name)
  | listOf {e : TypeExpr} (h : Bare e) : Bare (.listOf e)
  | dictOf {e : TypeExpr} (h : Bare e) : Bare (.dictOf e)
  | record {fields : List (String × TypeExpr)} (h : ∀ f ∈ fields, Bare f.2.unmarked) :
    Bare (.record fields)
  | never : Bare (.union [])
  | union {v w : TypeExpr} {rest : List TypeExpr}
    (hbare : ∀ e ∈ v :: w :: rest, Bare e)
    (hvariant : ∀ e ∈ v :: w :: rest, e.isVariant = true) : Bare (.union (v :: w :: rest))

/-- What may stand in a union has no choice of its own, and so needs no parentheses in a list. -/
theorem isWideUnion_eq_false_of_isVariant {v : TypeExpr} (h : v.isVariant = true) :
    v.isWideUnion = false := by
  cases v with
  | union variants => cases h
  | _ => rfl

/-! ### The text of an erasure -/

theorem fieldTexts_eq (fields : List (String × TypeExpr)) :
    fieldTexts fields =
      fields.map fun f => keyText f.1 ++ optionalMark f.2 ++ ": " ++ f.2.inline := by
  induction fields with
  | nil => rfl
  | cons f rest ih => rw [fieldTexts, ih, List.map_cons]

theorem variantTexts_eq (variants : List TypeExpr) :
    variantTexts variants = variants.map inline := by
  induction variants with
  | nil => rfl
  | cons v rest ih => rw [variantTexts, ih, List.map_cons]

theorem inline_record_cons (f : String × TypeExpr) (fields : List (String × TypeExpr)) :
    (record (f :: fields)).inline =
      "\x7b " ++ "; ".intercalate (fieldTexts (f :: fields)) ++ " \x7d" := rfl

theorem inline_union_cons (v : TypeExpr) (variants : List TypeExpr) :
    (union (v :: variants)).inline = " | ".intercalate (variantTexts (v :: variants)) := rfl

theorem inline_listOf (e : TypeExpr) :
    (listOf e).inline = if e.isWideUnion then "(" ++ e.inline ++ ")[]" else e.inline ++ "[]" := rfl

theorem inline_dictOf (e : TypeExpr) :
    (dictOf e).inline = "\x7b [key: string]: " ++ e.inline ++ " \x7d" := rfl

/-- The mark of an optional field is no part of the text of its type. -/
theorem inline_unmarked (e : TypeExpr) : e.unmarked.inline = e.inline := by
  cases e <;> rfl

/-- What a type shares with its erasure when the erasure is bare. -/
structure Shown (e : TypeExpr) : Prop where
  bare : e.erase.Bare
  text : e.erase.inline = e.inline
  wide : e.erase.isWideUnion = e.isWideUnion

/-- The text of a record depends on the texts of its fields only. -/
theorem inline_record_congr {fields others : List (String × TypeExpr)}
    (h : fieldTexts fields = fieldTexts others) :
    (record fields).inline = (record others).inline := by
  cases fields with
  | nil =>
    cases others with
    | nil => rfl
    | cons g others => rw [fieldTexts, fieldTexts] at h; cases h
  | cons f fields =>
    cases others with
    | nil => rw [fieldTexts, fieldTexts] at h; cases h
    | cons g others => rw [inline_record_cons, inline_record_cons, h]

/-- Erasing keeps which keys may be missing, and passes to the types behind the marks. -/
theorem unmarked_erase {e : TypeExpr} (h : e.unmarked.Shown) :
    e.erase.unmarked = e.unmarked.erase ∧ optionalMark e.erase = optionalMark e := by
  cases e with
  | optional e => exact ⟨rfl, rfl⟩
  | union variants =>
    have hbare : (union variants).erase.Bare := h.bare
    -- The erasure of a union may be a variant, which is bare and so marks no key.
    show (union variants).erase.unmarked = (union variants).erase ∧ _
    cases herase : (union variants).erase with
    | optional e => rw [herase] at hbare; cases hbare
    | _ => exact ⟨rfl, rfl⟩
  | _ => exact ⟨rfl, rfl⟩

/-- A record is shown by its text, if its fields are: the mark of a key stays with it. -/
theorem shown_record {fields : List (String × TypeExpr)}
    (h : ∀ f ∈ fields, f.2.unmarked.Shown) : (record fields).Shown := by
  have herase : (record fields).erase = record (fields.map fun f => (f.1, f.2.erase)) := by
    rw [erase, eraseFields_eq]
  refine ⟨?_, ?_, rfl⟩
  · rw [herase]
    refine .record ?_
    rw [List.forall_mem_map]
    intro f hf
    rw [(unmarked_erase (h f hf)).1]
    exact (h f hf).bare
  · rw [herase]
    apply inline_record_congr
    rw [fieldTexts_eq, fieldTexts_eq, List.map_map]
    apply List.map_congr_left
    intro f hf
    -- A field shows the mark of its key and the text under the mark.
    have htext : f.2.erase.inline = f.2.inline := by
      rw [← inline_unmarked f.2.erase, (unmarked_erase (h f hf)).1, (h f hf).text, inline_unmarked]
    show keyText f.1 ++ optionalMark f.2.erase ++ ": " ++ f.2.erase.inline = _
    rw [(unmarked_erase (h f hf)).2, htext]

/-- What may stand in a union still may do so once it is erased. -/
theorem isVariant_erase {v : TypeExpr} (h : v.isVariant = true) : v.erase.isVariant = true := by
  cases v with
  | literal value => rfl
  | record fields => rfl
  | _ => cases h

/-- A union is shown by its text, if its variants are, also when it is erased to the only one of
them. -/
theorem shown_union {variants : List TypeExpr} (h : ∀ v ∈ variants, v.Shown)
    (hvariant : ∀ v ∈ variants, v.isVariant = true) : (union variants).Shown := by
  have herase : (union variants).erase = collapse (variants.map erase) := by
    rw [erase, eraseVariants_eq]
  -- Only a union of one variant is shown as something else, and that has no choice in it.
  match variants, h, hvariant, herase with
  | [], _, _, _ => exact ⟨.never, rfl, rfl⟩
  | [v], h, hvariant, herase =>
    have hv := h v List.mem_cons_self
    have herase : (union [v]).erase = v.erase := herase
    refine ⟨herase ▸ hv.bare, ?_, ?_⟩
    · rw [herase, hv.text, inline_union_cons, variantTexts_eq, List.map_singleton,
        String.intercalate_singleton]
    · have hwide := isVariant_erase (hvariant v List.mem_cons_self)
      rw [herase, isWideUnion_eq_false_of_isVariant hwide]
      rfl
  | v :: w :: rest, h, hvariant, herase =>
    have herase : (union (v :: w :: rest)).erase = union ((v :: w :: rest).map erase) := herase
    refine ⟨?_, ?_, ?_⟩
    · rw [herase]
      refine .union ?_ ?_
      · show ∀ e ∈ (v :: w :: rest).map erase, e.Bare
        rw [List.forall_mem_map]
        exact fun e he => (h e he).bare
      · show ∀ e ∈ (v :: w :: rest).map erase, e.isVariant = true
        rw [List.forall_mem_map]
        exact fun e he => isVariant_erase (hvariant e he)
    · have htexts : variantTexts ((v :: w :: rest).map erase) = variantTexts (v :: w :: rest) := by
        rw [variantTexts_eq, variantTexts_eq, List.map_map]
        exact List.map_congr_left fun e he => (h e he).text
      rw [herase, inline_union_cons, ← htexts]
      rfl
    · rw [herase]
      rfl

/-- A type that passes a check is shown by its text: the erasure is bare and has the same text. -/
theorem shown_of_check {e : TypeExpr} {scopes : List String} {route : Route} {s s' : Session}
    {u : Unit} (hscopes : ∀ n ∈ scopes, isTypeName n = true)
    (h : Session.check scopes route e s = .ok u s') : e.Shown := by
  induction e generalizing scopes route s s' u with
  | primitive kind => exact ⟨.primitive kind, rfl, rfl⟩
  | literal value => exact ⟨.literal value, rfl, rfl⟩
  | reference name => exact ⟨.reference (hscopes _ (Session.check_reference_iff.1 h).1), rfl, rfl⟩
  | optional e ih => exact absurd h Session.check_optional_ne_ok
  | «alias» name definition ih =>
    obtain ⟨_, _, hregister, -⟩ := Session.check_alias_iff.1 h
    exact ⟨.reference (Session.register_iff.1 hregister).1.typeName, rfl, rfl⟩
  | listOf e ih =>
    have he : e.Shown := ih hscopes (show Session.check scopes (route ++ [listStep]) e s = _ from h)
    refine ⟨.listOf he.bare, ?_, rfl⟩
    rw [erase, inline_listOf, inline_listOf, he.text, he.wide]
  | dictOf e ih =>
    have he : e.Shown := ih hscopes (show Session.check scopes (route ++ [dictStep]) e s = _ from h)
    refine ⟨.dictOf he.bare, ?_, rfl⟩
    rw [erase, inline_dictOf, inline_dictOf, he.text]
  | record fields ih =>
    obtain ⟨-, hall⟩ := Session.check_record_iff.1 h
    refine shown_record fun f hf => ?_
    obtain ⟨_, _, hcheck⟩ := Session.exists_check_of_checkAll hall (List.mem_map_of_mem hf)
    exact (ih f hf).2 hscopes hcheck
  | union variants ih =>
    obtain ⟨hshape, hall⟩ := Session.check_union_iff.1 h
    refine shown_union (fun v hv => ?_) fun v hv => isVariant_of_mem (wellShaped_union.1 hshape) hv
    obtain ⟨_, _, hcheck⟩ := Session.exists_check_of_checkAll hall (List.mem_map_of_mem hv)
    exact ih v hv hscopes hcheck

end BoundaryTypes.TypeExpr
