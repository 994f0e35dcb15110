/-
  `Node` — a JSON node by its kind and its members.

  The reader of types goes through the members of an object until it finds the one that it
  needs. Here a node is looked at the way a message is written: it has a kind, which says
  which members count (`NodeKind.members`), and a bare name is a node without further members.
  `ofJson_of_kind?` says what is read from a node in these terms. Nodes are joined to the nodes
  inside them by edges, and `node_induction` goes along the edges, so that proofs about reading
  see nothing but type positions.
-/
import BoundaryTypes.Proofs.TypeExpr.Codec

namespace BoundaryTypes

open TypeExpr Outcome

/-! ### Kinds -/

namespace TypeExpr

/-- What a member of a node holds. -/
inductive Role where
  | plain
  | node
  | fields
  | variants
deriving DecidableEq, Repr

namespace NodeKind

/-- The word for a kind. -/
def word : NodeKind → String
  | .primitive k => k.word
  | .listOf => "list"
  | .dictOf => "dict"
  | .literal => "literal"
  | .optional => "optional"
  | .record => "record"
  | .union => "union"
  | .alias => "alias"
  | .reference => "ref"
  | .json => "json"

/-- The members that count in a node of a kind, besides the kind. -/
def members : NodeKind → List (String × Role)
  | .primitive _ | .json => []
  | .listOf => [("element", .node)]
  | .dictOf => [("value", .node)]
  | .literal => [("value", .plain)]
  | .optional => [("inner", .node)]
  | .record => [("fields", .fields)]
  | .union => [("variants", .variants)]
  | .alias => [("name", .plain), ("definition", .node)]
  | .reference => [("name", .plain)]

theorem ofName?_word (k : NodeKind) : ofName? k.word = some k := by
  cases k with
  | primitive k => cases k <;> decide
  | _ => decide

/-- A kind is recognised by its word, and by that alone. -/
theorem ofName?_eq_some {name : String} {k : NodeKind} : ofName? name = some k ↔ name = k.word := by
  constructor
  · intro h
    obtain ⟨entry, hfind, rfl⟩ := Option.map_eq_some_iff.1 h
    have hname : entry.1 = name := by simpa using List.find?_some hfind
    have hwords : ∀ entry ∈ nodeKinds, entry.1 = entry.2.word := by decide
    rw [← hname, hwords entry (List.mem_of_find?_eq_some hfind)]
  · rintro rfl
    exact ofName?_word k

end NodeKind

end TypeExpr

namespace Node

variable {v c item : Json} {key name : String} {kind : NodeKind} {route : Route}

/-! ### Members of nodes -/

/-- The members of a node; a bare name is short for a node of that kind with no other member. -/
def membersOf : Json → List (String × Json)
  | .object members => members
  | .string kind => [("kind", .string kind)]
  | _ => []

/-- The member of a node under a name. -/
def part? (v : Json) (key : String) : Option Json := Json.member? (membersOf v) key

/-- The word that a node has for its kind. -/
def kind? (v : Json) : Option String :=
  match part? v "kind" with
  | some (.string word) => some word
  | _ => none

theorem member?_cons (name key : String) (v : Json) (rest : List (String × Json)) :
    Json.member? ((name, v) :: rest) key =
      if name = key then some v else Json.member? rest key := by
  rw [Json.member?, List.find?_cons]
  by_cases hname : name = key
  · simp [hname]
  · simp [hname, Json.member?]

theorem mem_of_member? {members : List (String × Json)} (h : Json.member? members key = some v) :
    (key, v) ∈ members := by
  obtain ⟨m, hfind, rfl⟩ := Option.map_eq_some_iff.1 h
  have hname : m.1 = key := by simpa using List.find?_some hfind
  rw [← hname]
  exact List.mem_of_find?_eq_some hfind

theorem part?_string (word : String) (hkey : key ≠ "kind") : part? (.string word) key = none := by
  simp [part?, membersOf, Json.member?, hkey.symm]

/-- The kind of an object is the word in its member for kinds. -/
theorem kind?_object {members : List (String × Json)} {word : String} :
    kind? (.object members) = some word ↔ Json.member? members "kind" = some (.string word) := by
  unfold kind? part? membersOf
  constructor
  · intro h
    split at h
    · next hpart => rw [hpart, Option.some.inj h]
    · cases h
  · intro h
    rw [h]

theorem isFieldEntry_iff : isFieldEntry item = true ↔
    (part? item "name").isSome = true ∧ (part? item "type").isSome = true := by
  cases item with
  | object members => exact Bool.and_eq_true_iff
  | string word => simp [isFieldEntry, part?_string]
  | _ => simp [isFieldEntry, part?, membersOf, Json.member?]

/-! ### Nodes inside nodes -/

/-- A step from a node to a node inside it. -/
inductive Edge where
  | element
  | value
  | inner
  | field (name : String)
  | variant (index : Nat)
  | definition (name : String)
deriving DecidableEq, Repr

/-- What a route says of an edge. -/
def Edge.labels : Edge → Route
  | .element => [listStep]
  | .value => [dictStep]
  | .inner => []
  | .field name => [fieldStep name]
  | .variant index => [variantStep index]
  | .definition name => [name]

/-- A record node has a field: in an object of fields, or in a list of entries. -/
inductive HasField (v : Json) (name : String) (c : Json) : Prop
  | entry {entries : List (String × Json)} (h : part? v "fields" = some (.object entries))
    (hmem : (name, c) ∈ entries)
  | item {items : List Json} {item : Json} (h : part? v "fields" = some (.array items))
    (hmem : item ∈ items) (hname : part? item "name" = some (.string name))
    (htype : part? item "type" = some c)

/-- Edges join nodes to the nodes inside them. -/
inductive Edge.Joins : Edge → Json → Json → Prop
  | element {v c : Json} (hkind : kind? v = some "list") (h : part? v "element" = some c) :
    Joins .element v c
  | value {v c : Json} (hkind : kind? v = some "dict") (h : part? v "value" = some c) :
    Joins .value v c
  | inner {v c : Json} (hkind : kind? v = some "optional") (h : part? v "inner" = some c) :
    Joins .inner v c
  | field {v c : Json} {name : String} (hkind : kind? v = some "record") (h : HasField v name c) :
    Joins (.field name) v c
  | variant {v c : Json} {items : List Json} {index : Nat} (hkind : kind? v = some "union")
    (h : part? v "variants" = some (.array items)) (hitem : items[index]? = some c) :
    Joins (.variant index) v c
  | definition {v c : Json} {name : String} (hkind : kind? v = some "alias")
    (hname : part? v "name" = some (.string name)) (h : part? v "definition" = some c) :
    Joins (.definition name) v c

theorem sizeOf_lt_of_mem {members : List (String × Json)} (h : (name, c) ∈ members) :
    sizeOf c < sizeOf members := by
  have hmem := List.sizeOf_lt_of_mem h
  simp only [Prod.mk.sizeOf_spec] at hmem
  omega

/-- The parts of a node are smaller than the node, but for its word. -/
theorem sizeOf_part?_lt (hkey : key ≠ "kind") (h : part? v key = some c) : sizeOf c < sizeOf v := by
  cases v with
  | object members =>
    have hmem : sizeOf c < sizeOf members := sizeOf_lt_of_mem (mem_of_member? h)
    simp only [Json.object.sizeOf_spec]
    omega
  | string word => rw [part?_string word hkey] at h; cases h
  | _ => cases h

theorem HasField.sizeOf_lt (h : HasField v name c) : sizeOf c < sizeOf v := by
  cases h with
  | entry h hmem =>
    have hfields := sizeOf_part?_lt (by decide) h
    have hentry := sizeOf_lt_of_mem hmem
    simp only [Json.object.sizeOf_spec] at hfields
    omega
  | item h hmem _ htype =>
    have hfields := sizeOf_part?_lt (by decide) h
    have hitem := List.sizeOf_lt_of_mem hmem
    have htype := sizeOf_part?_lt (by decide) htype
    simp only [Json.array.sizeOf_spec] at hfields
    omega

/-- A node inside a node is smaller. -/
theorem Edge.Joins.sizeOf_lt {edge : Edge} (h : edge.Joins v c) : sizeOf c < sizeOf v := by
  cases h with
  | element _ h => exact sizeOf_part?_lt (by decide) h
  | value _ h => exact sizeOf_part?_lt (by decide) h
  | inner _ h => exact sizeOf_part?_lt (by decide) h
  | field _ h => exact h.sizeOf_lt
  | variant _ h hitem =>
    have hvariants := sizeOf_part?_lt (by decide) h
    have hitem := List.sizeOf_lt_of_mem (List.mem_of_getElem? hitem)
    simp only [Json.array.sizeOf_spec] at hvariants
    omega
  | definition _ _ h => exact sizeOf_part?_lt (by decide) h

/-- Induction along the edges: a property that passes from all nodes inside a node to the node holds
of every node. -/
theorem node_induction {motive : Json → Prop}
    (step : ∀ v, (∀ edge c, Edge.Joins edge v c → motive c) → motive v) (v : Json) : motive v := by
  induction v using (measure (sizeOf : Json → Nat)).wf.induction with
  | h v ih => exact step v fun edge c hedge => ih c hedge.sizeOf_lt

/-! ### What is read from a node -/

/-- The member of a node that a kind needs. -/
def required (route : Route) (v : Json) (kind : NodeKind) (key : String) : Except TypeFault Json :=
  match part? v key with
  | some c => .ok c
  | none => refuse route (.keyMissing kind.word key)

/-- A name, which must not be empty. -/
def nameIn (route : Route) : Json → Except TypeFault String
  | .string name => if name = "" then refuse route .aliasNameEmpty else .ok name
  | _ => refuse route .aliasNameEmpty

theorem eq_of_nameIn (h : nameIn route c = .ok name) : c = .string name := by
  cases c with
  | string text =>
    by_cases hempty : text = ""
    · rw [nameIn, if_pos hempty] at h
      cases h
    · rw [nameIn, if_neg hempty] at h
      rw [Except.ok.inj h]
  | _ => cases h

/-- The text of a literal. -/
def textIn (route : Route) : Json → Except TypeFault TypeExpr
  | .string text => .ok (.literal text)
  | _ => refuse route .literalNotText

/-- What is read from a node of a kind. -/
def ofKind (route : Route) (v : Json) : NodeKind → Except TypeFault TypeExpr
  | .primitive k => .ok (.primitive k)
  | .listOf => do
    let c ← required route v .listOf "element"
    (ofJson (route ++ [listStep]) c).map .listOf
  | .dictOf => do
    let c ← required route v .dictOf "value"
    (ofJson (route ++ [dictStep]) c).map .dictOf
  | .literal => do
    let c ← required route v .literal "value"
    textIn route c
  | .optional => do
    let c ← required route v .optional "inner"
    (ofJson route c).map .optional
  | .record => do
    let c ← required route v .record "fields"
    (ofFields route c).map .record
  | .union => do
    let c ← required route v .union "variants"
    (ofVariantList route c).map .union
  | .alias => do
    let n ← required route v .alias "name"
    let name ← nameIn route n
    let c ← required route v .alias "definition"
    (ofJson (route ++ [name]) c).map (.alias name)
  | .reference => do
    let n ← required route v .reference "name"
    (nameIn route n).map .reference
  | .json => .ok jsonValue

/-- A search through the members for the one that a kind needs. -/
theorem search_eq {α : Type} (search : List (String × Json) → Except TypeFault α)
    {found : Json → Except TypeFault α}
    (hnil : search [] = refuse route (.keyMissing kind.word key))
    (hcons : ∀ name v rest, search ((name, v) :: rest) =
      if name = key then found v else search rest) (members : List (String × Json)) :
    search members = required route (.object members) kind key >>= found := by
  -- The search stops at the first member under the key, which is the one that is looked up.
  have hsearch : search members =
      match Json.member? members key with
      | some c => found c
      | none => refuse route (.keyMissing kind.word key) := by
    induction members with
    | nil => exact hnil
    | cons m rest ih =>
      obtain ⟨name, v⟩ := m
      rw [hcons, member?_cons]
      by_cases hname : name = key
      · rw [if_pos hname, if_pos hname]
      · rw [if_neg hname, if_neg hname]
        exact ih
  rw [hsearch]
  show _ = (match Json.member? members key with
    | some c => Except.ok c
    | none => refuse route (.keyMissing kind.word key)) >>= found
  cases Json.member? members key <;> rfl

/-- A member with a type is required, and its type is read. -/
theorem ofMember_eq (kind : NodeKind) (key : String) (inner route : Route)
    (members : List (String × Json)) :
    ofMember kind.word key inner route members =
      required route (.object members) kind key >>= ofJson inner :=
  search_eq (ofMember kind.word key inner route) rfl (fun _ _ _ => by rw [ofMember]) members

/-- The fields of a record are required, and read as fields. -/
theorem ofFieldsMember_eq (route : Route) (members : List (String × Json)) :
    ofFieldsMember route members =
      required route (.object members) .record "fields" >>= ofFields route :=
  search_eq (ofFieldsMember route) rfl (ofFieldsMember_cons route) members

/-- The variants of a union are required, and read as variants. -/
theorem ofVariantsMember_eq (route : Route) (members : List (String × Json)) :
    ofVariantsMember route members =
      required route (.object members) .union "variants" >>= ofVariantList route :=
  search_eq (ofVariantsMember route) rfl (ofVariantsMember_cons route) members

/-- The name of an alias is required, and read as a name. -/
theorem nameOf_eq (kind : NodeKind) (members : List (String × Json)) (route : Route) :
    nameOf kind.word members route =
      required route (.object members) kind "name" >>= nameIn route := by
  show nameOf kind.word members route = (match Json.member? members "name" with
    | some c => Except.ok c
    | none => refuse route (.keyMissing kind.word "name")) >>= nameIn route
  unfold nameOf
  cases Json.member? members "name" with
  | none => rfl
  | some n => cases n <;> rfl

theorem literalOf_eq (members : List (String × Json)) (route : Route) :
    literalOf NodeKind.literal.word members route =
      required route (.object members) .literal "value" >>= textIn route := by
  show literalOf _ members route = (match Json.member? members "value" with
    | some c => Except.ok c
    | none => refuse route (.keyMissing NodeKind.literal.word "value")) >>= textIn route
  unfold literalOf
  cases Json.member? members "value" with
  | none => rfl
  | some c => cases c <;> rfl

/-- What is read from a node whose kind has a word. -/
def ofWord (route : Route) (v : Json) (word : String) : Except TypeFault TypeExpr :=
  match NodeKind.ofName? word with
  | some kind => ofKind route v kind
  | none => refuse route (.unknownKind word)

/-- A node is read according to its kind. -/
theorem ofJson_of_kind? {word : String} (route : Route) (h : kind? v = some word) :
    ofJson route v = ofWord route v word := by
  -- A bare name needs no other member, or its kind lacks one; an object is searched for them.
  cases v with
  | string bare =>
    obtain rfl := Option.some.inj h
    show ofBareKind route bare = _
    unfold ofBareKind ofWord
    cases hkind : NodeKind.ofName? bare with
    | none => rfl
    | some kind =>
      obtain rfl := NodeKind.ofName?_eq_some.1 hkind
      cases kind <;> rfl
  | object members =>
    have hkindOf : kindOf members route = .ok word := by
      rw [kindOf, kind?_object.1 h]
    rw [ofJson, hkindOf, ok_bind]
    unfold ofWord
    cases hkind : NodeKind.ofName? word with
    | none => rfl
    | some kind =>
      obtain rfl := NodeKind.ofName?_eq_some.1 hkind
      cases kind with
      | primitive k => rfl
      | json => rfl
      | literal => exact literalOf_eq members route
      | listOf =>
        show (ofMember NodeKind.listOf.word "element" _ route members).map TypeExpr.listOf = _
        rw [ofMember_eq, except_map_bind]
        rfl
      | dictOf =>
        show (ofMember NodeKind.dictOf.word "value" _ route members).map TypeExpr.dictOf = _
        rw [ofMember_eq, except_map_bind]
        rfl
      | optional =>
        show (ofMember NodeKind.optional.word "inner" route route members).map TypeExpr.optional = _
        rw [ofMember_eq, except_map_bind]
        rfl
      | record =>
        show (ofFieldsMember route members).map TypeExpr.record = _
        rw [ofFieldsMember_eq, except_map_bind]
        rfl
      | union =>
        show (ofVariantsMember route members).map TypeExpr.union = _
        rw [ofVariantsMember_eq, except_map_bind]
        rfl
      | reference =>
        show (nameOf NodeKind.reference.word members route).map TypeExpr.reference = _
        rw [nameOf_eq, except_map_bind]
        rfl
      | «alias» =>
        show (nameOf NodeKind.alias.word members route >>= fun name =>
          (ofMember NodeKind.alias.word "definition" (route ++ [name]) route members).map
            (TypeExpr.alias name)) = _
        simp only [nameOf_eq, ofMember_eq, except_map_bind, bind_assoc]
        rfl
  | _ => cases h

/-- Without a word for its kind, an object has no kind, and any other value is no node. -/
theorem ofJson_of_kind?_eq_none (h : kind? v = none) :
    ((∃ members, v = .object members) ∧ ∀ route, ofJson route v = refuse route .kindMissing) ∨
      ((∀ members, v ≠ .object members) ∧ ∀ word, v ≠ .string word) ∧
        ∀ route, ofJson route v = refuse route .nodeNotObject := by
  cases v with
  | string word => cases h
  | object members =>
    refine .inl ⟨⟨members, rfl⟩, fun route => ?_⟩
    have hkindOf : kindOf members route = refuse route .kindMissing := by
      unfold kindOf
      split
      · next heq => rw [kind?_object.2 heq] at h; cases h
      · rfl
    rw [ofJson, hkindOf]
    rfl
  | _ => exact .inr ⟨⟨by simp, by simp⟩, fun _ => rfl⟩

/-! ### Fields in lists -/

variable {rest : List Json}

/-- A list of fields that starts with a named type. -/
theorem ofFieldItems_cons_of_name (route : Route) (hname : part? item "name" = some (.string name))
    (htype : part? item "type" = some c) :
    ofFieldItems route (item :: rest) = (do
      let e ← ofJson (route ++ [fieldStep name]) c
      let es ← ofFieldItems route rest
      pure ((name, e) :: es)) := by
  cases item with
  | object members =>
    have hmember : Json.member? members "name" = some (.string name) := hname
    have hread : ofMember "record" "type" (route ++ [fieldStep name]) route members =
        ofJson (route ++ [fieldStep name]) c := by
      rw [show "record" = NodeKind.record.word from rfl, ofMember_eq, required, htype]
      rfl
    rw [ofFieldItems, hmember]
    simp only [hread]
  | string word => rw [part?_string word (by decide)] at hname; cases hname
  | _ => cases hname

/-- A list of fields that starts with an entry whose name is no text. -/
theorem ofFieldItems_cons_of_not_text (route : Route) (hname : part? item "name" = some c)
    (htext : ∀ name, c ≠ .string name) :
    ofFieldItems route (item :: rest) = refuse route (.fieldNameNotText c) := by
  cases item with
  | object members =>
    have hmember : Json.member? members "name" = some c := hname
    rw [ofFieldItems, hmember]
    cases c with
    | string name => exact absurd rfl (htext name)
    | _ => rfl
  | string word => rw [part?_string word (by decide)] at hname; cases hname
  | _ => cases hname

end Node

end BoundaryTypes
