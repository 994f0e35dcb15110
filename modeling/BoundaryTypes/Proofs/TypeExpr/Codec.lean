/-
  `Codec` — which types survive being written as a JSON node.

  A node can hold every type, but it is read only if it names every alias and every
  reference, and if the variants of a union are records and literals
  (`Encodable`). `ofJson_toJson_iff` is the exact domain of the round trip: what is
  read from the node of a type is that type, and something is read exactly when the
  type is encodable everywhere. `everywhere_encodable_of_ofJson` is the other side:
  however a node is spelled, the type read from it is encodable.
-/
import BoundaryTypes.Proofs.Outcome
import BoundaryTypes.Proofs.TypeExpr.Parts
import BoundaryTypes.TypeExpr.Decode
import BoundaryTypes.TypeExpr.Encode

namespace BoundaryTypes.TypeExpr

open Outcome

/-- What a node asks of a type: names are not empty, and variants are records or literals. -/
def Encodable : TypeExpr → Prop
  | .alias name _ | .reference name => name ≠ ""
  | .union variants => ∀ v ∈ variants, isVariant v = true
  | _ => True

theorem everywhere_encodable_jsonValue : jsonValue.Everywhere Encodable := by
  have hname : jsonValueName ≠ "" := by decide
  exact everywhere_alias.2 ⟨hname, everywhere_reference.2 hname⟩

/-! ### Members by name -/

/-- The fields that the member of a record node holds. -/
def ofFields (route : Route) : Json → Except TypeFault (List (String × TypeExpr))
  | .object entries => ofEntries route entries
  | .array items =>
    if items.all isFieldEntry then ofFieldItems route items else refuse route .fieldEntryShape
  | _ => refuse route .fieldsShape

theorem ofFieldsMember_cons (route : Route) (name : String) (v : Json)
    (rest : List (String × Json)) :
    ofFieldsMember route ((name, v) :: rest) =
      if name = "fields" then ofFields route v else ofFieldsMember route rest := by
  cases v <;> rfl

/-- The variants that the member of a union node holds. -/
def ofVariantList (route : Route) : Json → Except TypeFault (List TypeExpr)
  | .array items => ofVariants route 0 items
  | _ => refuse route .variantsNotList

theorem ofVariantsMember_cons (route : Route) (name : String) (v : Json)
    (rest : List (String × Json)) :
    ofVariantsMember route ((name, v) :: rest) =
      if name = "variants" then ofVariantList route v else ofVariantsMember route rest := by
  cases v <;> rfl

/-! ### The nodes of types -/

section Nodes

variable (route : Route)

theorem ofJson_primitive (k : Primitive) :
    ofJson route (toJson (.primitive k)) = .ok (.primitive k) := by
  cases k <;> rfl

theorem ofJson_listOf (e : TypeExpr) :
    ofJson route (toJson (.listOf e)) = (ofJson (route ++ [listStep]) e.toJson).map .listOf := rfl

theorem ofJson_dictOf (e : TypeExpr) :
    ofJson route (toJson (.dictOf e)) = (ofJson (route ++ [dictStep]) e.toJson).map .dictOf := rfl

theorem ofJson_literal (s : String) : ofJson route (toJson (.literal s)) = .ok (.literal s) := rfl

theorem ofJson_optional (e : TypeExpr) :
    ofJson route (toJson (.optional e)) = (ofJson route e.toJson).map .optional := rfl

theorem ofJson_record (fields : List (String × TypeExpr)) :
    ofJson route (toJson (.record fields)) =
      (ofFields route (.array (fieldNodes fields))).map .record := rfl

theorem ofJson_union (variants : List TypeExpr) :
    ofJson route (toJson (.union variants)) =
      (ofVariants route 0 (nodes variants)).map .union := rfl

theorem ofJson_jsonValue : ofJson route jsonValue.toJson = .ok jsonValue := rfl

/-- The node of a named type is read as what it was written from, at the step of its name; the JSON
value has a node of its own. -/
theorem ofJson_alias {name : String} {e : TypeExpr} (h : TypeExpr.alias name e ≠ jsonValue) :
    ofJson route (toJson (.alias name e)) =
      if name = "" then refuse route .aliasNameEmpty
      else (ofJson (route ++ [name]) e.toJson).map (.alias name) := by
  rw [toJson, if_neg h]
  -- Only the type of arbitrary JSON has a node of another form, so this one holds name and
  -- definition.
  show ((if name = "" then refuse route .aliasNameEmpty else .ok name) >>= fun n =>
    (ofJson (route ++ [n]) e.toJson).map (TypeExpr.alias n)) = _
  split
  · rfl
  · rfl

theorem ofJson_reference (name : String) :
    ofJson route (toJson (.reference name)) =
      if name = "" then refuse route .aliasNameEmpty else .ok (.reference name) := by
  show (if name = "" then refuse route .aliasNameEmpty else .ok name).map TypeExpr.reference = _
  split
  · rfl
  · rfl

/-- Fields are read one after another, each at the step of its name. -/
theorem ofFieldItems_cons (name : String) (e : TypeExpr) (rest : List (String × TypeExpr)) :
    ofFieldItems route (fieldNodes ((name, e) :: rest)) = (do
      let a ← ofJson (route ++ [fieldStep name]) e.toJson
      let as ← ofFieldItems route (fieldNodes rest)
      pure ((name, a) :: as)) := rfl

/-- Variants are read one after another, each at the step of its number. -/
theorem ofVariants_cons (index : Nat) (v : TypeExpr) (rest : List TypeExpr) :
    ofVariants route index (nodes (v :: rest)) = (do
      let a ← ofJson (route ++ [variantStep index]) v.toJson
      if isVariant a then
        let as ← ofVariants route (index + 1) (nodes rest)
        pure (a :: as)
      else refuse route (.variantShape index)) := rfl

end Nodes

/-! ### The round trip -/

/-- Written fields have the members that a field must have. -/
theorem all_isFieldEntry_fieldNodes (fields : List (String × TypeExpr)) :
    (fieldNodes fields).all isFieldEntry = true := by
  induction fields with
  | nil => rfl
  | cons f rest ih =>
    rw [fieldNodes, List.all_cons, ih]
    rfl

/-- The fields read from written fields are these fields, if that is so for their types. -/
theorem ofFieldItems_fieldNodes {route : Route} {fields read : List (String × TypeExpr)}
    (ih : ∀ f ∈ fields, ∀ route e, ofJson route f.2.toJson = .ok e ↔
      e = f.2 ∧ f.2.Everywhere Encodable) :
    ofFieldItems route (fieldNodes fields) = .ok read ↔
      read = fields ∧ ∀ f ∈ fields, f.2.Everywhere Encodable := by
  induction fields generalizing read with
  | nil => exact ⟨fun h => by cases h; simp, fun h => by rw [h.1]; rfl⟩
  | cons f rest irest =>
    obtain ⟨name, e⟩ := f
    have more : ∀ read, _ := fun read => @irest read fun g hg => ih g (List.mem_cons_of_mem _ hg)
    rw [ofFieldItems_cons, bind_eq_ok]
    -- Each type is read back as itself, so the lists can only agree.
    simp only [ih (name, e) List.mem_cons_self, bind_eq_ok, more, List.forall_mem_cons]
    constructor
    · rintro ⟨_, ⟨rfl, he⟩, _, ⟨rfl, hrest⟩, h⟩
      cases h
      exact ⟨rfl, he, hrest⟩
    · rintro ⟨rfl, he, hrest⟩
      exact ⟨e, ⟨rfl, he⟩, rest, ⟨rfl, hrest⟩, rfl⟩

/-- The variants read from written variants are these variants, all of them records or literals. -/
theorem ofVariants_nodes {route : Route} {index : Nat} {variants read : List TypeExpr}
    (ih : ∀ v ∈ variants, ∀ route e, ofJson route v.toJson = .ok e ↔
      e = v ∧ v.Everywhere Encodable) :
    ofVariants route index (nodes variants) = .ok read ↔
      read = variants ∧ (∀ v ∈ variants, isVariant v = true) ∧
        ∀ v ∈ variants, v.Everywhere Encodable := by
  -- The index of a variant only serves the words of a fault.
  induction variants generalizing index read with
  | nil => exact ⟨fun h => by cases h; simp, fun h => by rw [h.1]; rfl⟩
  | cons v rest irest =>
    have more : ∀ index read, _ :=
      fun index read => @irest index read fun w hw => ih w (List.mem_cons_of_mem _ hw)
    rw [ofVariants_cons, bind_eq_ok]
    simp only [ih v List.mem_cons_self, List.forall_mem_cons]
    constructor
    · rintro ⟨a, ⟨rfl, ha⟩, h⟩
      split at h
      · next hvariant =>
        obtain ⟨as, has, hend⟩ := bind_eq_ok.1 h
        obtain ⟨rfl, hvariants, hrest⟩ := (more _ _).1 has
        exact ⟨(Except.ok.inj hend).symm, ⟨hvariant, hvariants⟩, ha, hrest⟩
      · cases h
    · rintro ⟨rfl, ⟨hvariant, hvariants⟩, hv, hrest⟩
      refine ⟨v, ⟨rfl, hv⟩, ?_⟩
      rw [if_pos hvariant, bind_eq_ok]
      exact ⟨rest, (more _ _).2 ⟨rfl, hvariants, hrest⟩, rfl⟩

/-- **What is read from the node of a type is the type**, and the types that are read are those
that are encodable everywhere. -/
theorem ofJson_toJson_iff (e : TypeExpr) (route : Route) (read : TypeExpr) :
    ofJson route e.toJson = .ok read ↔ read = e ∧ e.Everywhere Encodable := by
  induction e generalizing route read with
  | primitive kind =>
    rw [ofJson_primitive, everywhere_primitive, Except.ok.injEq, eq_comm]
    simp [Encodable]
  | listOf e ih =>
    rw [ofJson_listOf, map_eq_ok_iff (ih _), everywhere_listOf]
    simp [Encodable]
  | dictOf e ih =>
    rw [ofJson_dictOf, map_eq_ok_iff (ih _), everywhere_dictOf]
    simp [Encodable]
  | literal s =>
    rw [ofJson_literal, everywhere_literal, Except.ok.injEq, eq_comm]
    simp [Encodable]
  | optional e ih =>
    rw [ofJson_optional, map_eq_ok_iff (ih _), everywhere_optional]
    simp [Encodable]
  | record fields ih =>
    have hread := fun read => @ofFieldItems_fieldNodes route fields read fun f hf => (ih f hf).1
    rw [ofJson_record, ofFields, if_pos (all_isFieldEntry_fieldNodes fields),
      map_eq_ok_iff hread, everywhere_record]
    simp [Encodable]
  | union variants ih =>
    have hread := fun read => @ofVariants_nodes route 0 variants read ih
    rw [ofJson_union, map_eq_ok_iff hread, everywhere_union]
    rfl
  | «alias» name e ih =>
    rw [everywhere_alias]
    -- The type of arbitrary JSON is written by its kind alone, and its own parts are encodable.
    by_cases h : TypeExpr.alias name e = jsonValue
    · rw [← everywhere_alias, h, ofJson_jsonValue, Except.ok.injEq, eq_comm,
        and_iff_left everywhere_encodable_jsonValue]
    · rw [ofJson_alias route h]
      by_cases hname : name = ""
      · simp [hname, refuse, Encodable]
      · rw [if_neg hname, map_eq_ok_iff (ih _)]
        simp [Encodable, hname]
  | reference name =>
    rw [ofJson_reference, everywhere_reference]
    by_cases hname : name = ""
    · simp [hname, refuse, Encodable]
    · rw [if_neg hname, Except.ok.injEq, eq_comm]
      simp [Encodable, hname]

/-! ### What a node can hold -/

/-- The kinds that need no other member are encodable. -/
theorem everywhere_encodable_of_ofBareKind {route : Route} {kind : String} {e : TypeExpr}
    (h : ofBareKind route kind = .ok e) : e.Everywhere Encodable := by
  unfold ofBareKind at h
  split at h
  · cases h
  · cases h; rw [everywhere_primitive]; trivial
  · cases h; exact everywhere_encodable_jsonValue
  -- Every other kind needs a member.
  all_goals cases h

/-- A name that was read is not empty. -/
theorem ne_empty_of_nameOf {kind name : String} {members : List (String × Json)} {route : Route}
    (h : nameOf kind members route = .ok name) : name ≠ "" := by
  unfold nameOf at h
  split at h
  · cases h
  · split at h
    · cases h
    · next hne => cases h; exact hne
  · cases h

mutual

/-- A type that was read is encodable, however its node is spelled. -/
theorem everywhere_encodable_of_ofJson : ∀ (v : Json) (route : Route) (e : TypeExpr),
    ofJson route v = .ok e → e.Everywhere Encodable
  | .string kind, route, e, h => everywhere_encodable_of_ofBareKind h
  | .object members, route, e, h => by
    rw [ofJson] at h
    obtain ⟨kind, -, h⟩ := bind_eq_ok.1 h
    -- One case for each kind that a node may have, in the order in which the reader tries them.
    split at h
    · cases h
    · cases h; rw [everywhere_primitive]; trivial
    · obtain ⟨a, ha, rfl⟩ := map_eq_ok.1 h
      exact everywhere_listOf.2 ⟨trivial, everywhere_encodable_of_ofMember members _ _ _ _ a ha⟩
    · obtain ⟨a, ha, rfl⟩ := map_eq_ok.1 h
      exact everywhere_dictOf.2 ⟨trivial, everywhere_encodable_of_ofMember members _ _ _ _ a ha⟩
    · unfold literalOf at h
      split at h
      · cases h
      · cases h; rw [everywhere_literal]; trivial
      · cases h
    · obtain ⟨a, ha, rfl⟩ := map_eq_ok.1 h
      exact everywhere_optional.2 ⟨trivial, everywhere_encodable_of_ofMember members _ _ _ _ a ha⟩
    · obtain ⟨fields, hfields, rfl⟩ := map_eq_ok.1 h
      exact everywhere_record.2 ⟨trivial,
        everywhere_encodable_of_ofFieldsMember members route fields hfields⟩
    · obtain ⟨variants, hvariants, rfl⟩ := map_eq_ok.1 h
      have hall := everywhere_encodable_of_ofVariantsMember members route variants hvariants
      exact everywhere_union.2 ⟨fun v hv => (hall v hv).1, fun v hv => (hall v hv).2⟩
    · obtain ⟨name, hname, h⟩ := bind_eq_ok.1 h
      obtain ⟨a, ha, rfl⟩ := map_eq_ok.1 h
      exact everywhere_alias.2 ⟨ne_empty_of_nameOf hname,
        everywhere_encodable_of_ofMember members _ _ _ _ a ha⟩
    · obtain ⟨name, hname, rfl⟩ := map_eq_ok.1 h
      exact everywhere_reference.2 (ne_empty_of_nameOf hname)
    · cases h; exact everywhere_encodable_jsonValue
  | .null, _, _, h => by cases h
  | .bool _, _, _, h => by cases h
  | .int _, _, _, h => by cases h
  | .real _, _, _, h => by cases h
  | .array _, _, _, h => by cases h

theorem everywhere_encodable_of_ofMember : ∀ (members : List (String × Json)) (kind key : String)
    (inner route : Route) (e : TypeExpr),
    ofMember kind key inner route members = .ok e → e.Everywhere Encodable
  | [], _, _, _, _, _, h => by cases h
  | (name, v) :: rest, kind, key, inner, route, e, h => by
    rw [ofMember] at h
    split at h
    · exact everywhere_encodable_of_ofJson v inner e h
    · exact everywhere_encodable_of_ofMember rest kind key inner route e h

theorem everywhere_encodable_of_ofFieldsMember : ∀ (members : List (String × Json))
    (route : Route) (fields : List (String × TypeExpr)),
    ofFieldsMember route members = .ok fields → ∀ f ∈ fields, f.2.Everywhere Encodable
  | [], _, _, h => by cases h
  | (name, .object entries) :: rest, route, fields, h => by
    rw [ofFieldsMember_cons] at h
    split at h
    · exact everywhere_encodable_of_ofEntries entries route fields h
    · exact everywhere_encodable_of_ofFieldsMember rest route fields h
  | (name, .array items) :: rest, route, fields, h => by
    rw [ofFieldsMember_cons, ofFields] at h
    split at h
    · split at h
      · exact everywhere_encodable_of_ofFieldItems items route fields h
      · cases h
    · exact everywhere_encodable_of_ofFieldsMember rest route fields h
  | (name, .string _) :: rest, route, fields, h
  | (name, .null) :: rest, route, fields, h
  | (name, .bool _) :: rest, route, fields, h
  | (name, .int _) :: rest, route, fields, h
  | (name, .real _) :: rest, route, fields, h => by
    rw [ofFieldsMember_cons] at h
    split at h
    · cases h
    · exact everywhere_encodable_of_ofFieldsMember rest route fields h

theorem everywhere_encodable_of_ofEntries : ∀ (entries : List (String × Json)) (route : Route)
    (fields : List (String × TypeExpr)),
    ofEntries route entries = .ok fields → ∀ f ∈ fields, f.2.Everywhere Encodable
  | [], _, _, h => by cases h; simp
  | (name, v) :: rest, route, fields, h => by
    rw [ofEntries] at h
    obtain ⟨a, ha, h⟩ := bind_eq_ok.1 h
    obtain ⟨more, hmore, h⟩ := bind_eq_ok.1 h
    cases h
    exact List.forall_mem_cons.2 ⟨everywhere_encodable_of_ofJson v _ a ha,
      everywhere_encodable_of_ofEntries rest route more hmore⟩

theorem everywhere_encodable_of_ofFieldItems : ∀ (items : List Json) (route : Route)
    (fields : List (String × TypeExpr)),
    ofFieldItems route items = .ok fields → ∀ f ∈ fields, f.2.Everywhere Encodable
  | [], _, _, h => by cases h; simp
  | .object members :: rest, route, fields, h => by
    rw [ofFieldItems] at h
    split at h
    · obtain ⟨a, ha, h⟩ := bind_eq_ok.1 h
      obtain ⟨more, hmore, h⟩ := bind_eq_ok.1 h
      cases h
      exact List.forall_mem_cons.2 ⟨everywhere_encodable_of_ofMember members _ _ _ _ a ha,
        everywhere_encodable_of_ofFieldItems rest route more hmore⟩
    · cases h
  | .null :: _, _, _, h => by cases h
  | .bool _ :: _, _, _, h => by cases h
  | .int _ :: _, _, _, h => by cases h
  | .real _ :: _, _, _, h => by cases h
  | .string _ :: _, _, _, h => by cases h
  | .array _ :: _, _, _, h => by cases h

theorem everywhere_encodable_of_ofVariantsMember : ∀ (members : List (String × Json))
    (route : Route) (variants : List TypeExpr), ofVariantsMember route members = .ok variants →
    ∀ v ∈ variants, isVariant v = true ∧ v.Everywhere Encodable
  | [], _, _, h => by cases h
  | (name, .array items) :: rest, route, variants, h => by
    rw [ofVariantsMember_cons] at h
    split at h
    · exact everywhere_encodable_of_ofVariants items route 0 variants h
    · exact everywhere_encodable_of_ofVariantsMember rest route variants h
  | (name, .string _) :: rest, route, variants, h
  | (name, .null) :: rest, route, variants, h
  | (name, .bool _) :: rest, route, variants, h
  | (name, .int _) :: rest, route, variants, h
  | (name, .real _) :: rest, route, variants, h
  | (name, .object _) :: rest, route, variants, h => by
    rw [ofVariantsMember_cons] at h
    split at h
    · cases h
    · exact everywhere_encodable_of_ofVariantsMember rest route variants h

theorem everywhere_encodable_of_ofVariants : ∀ (items : List Json) (route : Route) (index : Nat)
    (variants : List TypeExpr), ofVariants route index items = .ok variants →
    ∀ v ∈ variants, isVariant v = true ∧ v.Everywhere Encodable
  | [], _, _, _, h => by cases h; simp
  | item :: rest, route, index, variants, h => by
    rw [ofVariants] at h
    obtain ⟨a, ha, h⟩ := bind_eq_ok.1 h
    split at h
    · next hvariant =>
      obtain ⟨more, hmore, h⟩ := bind_eq_ok.1 h
      cases h
      exact List.forall_mem_cons.2 ⟨⟨hvariant, everywhere_encodable_of_ofJson item _ a ha⟩,
        everywhere_encodable_of_ofVariants rest route (index + 1) more hmore⟩
    · cases h

end

end BoundaryTypes.TypeExpr
