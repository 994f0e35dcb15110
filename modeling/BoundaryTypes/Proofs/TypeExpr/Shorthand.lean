/-
  `Shorthand` — a node with its short forms spelled out.

  A node may be written in short: a bare name for a node without further members, an object for a
  list of fields, a kind of its own for arbitrary JSON. It may also have members that its kind does
  not use. `desugar` spells a node out, with the nodes in it, and keeps only what counts
  (`NodeKind.members`). What a member holds after that depends on the role of the member alone
  (`inRole`), so that what is plain, such as the text of a literal, stays as it is. The reader
  cannot tell a node from the node spelled out: `ofJson_desugar` goes along the edges between nodes.
-/
import BoundaryTypes.Proofs.TypeExpr.Node

namespace BoundaryTypes.Node

open Outcome TypeExpr

variable {v c item : Json} {key name word : String} {kind : NodeKind} {role : Role}

/-! ### Spelling out -/

/-- The members that count in a node of a kind. -/
def counted (word : String) : List (String × Role) :=
  ("kind", .plain) :: (NodeKind.ofName? word).elim [] NodeKind.members

/-- The members that count in an entry of a list of fields. -/
def countedInEntry : List (String × Role) := [("name", .plain), ("type", .node)]

/-- The node of a kind; that of arbitrary JSON is an alias of a reference to itself. -/
def spellOut (word : String) (members : List (String × Json)) : Json :=
  if word = "json" then
    .object [("kind", .string "alias"), ("name", .string jsonValueName),
      ("definition", .object [("kind", .string "ref"), ("name", .string jsonValueName)])]
  else .object members

mutual

/-- A node without short forms. -/
def desugar : Json → Json
  | .string word => spellOut word [("kind", .string word)]
  | .object members =>
    match Json.member? members "kind" with
    | some (.string word) => spellOut word (desugarMembers (counted word) members)
    | _ => .object members
  | v => v

/-- The members that count, without short forms. -/
def desugarMembers (counted : List (String × Role)) : List (String × Json) → List (String × Json)
  | [] => []
  | (key, v) :: rest =>
    match counted.lookup key with
    | none => desugarMembers counted rest
    | some .plain => (key, v) :: desugarMembers counted rest
    | some .node => (key, desugar v) :: desugarMembers counted rest
    | some .fields => (key, desugarFields v) :: desugarMembers counted rest
    | some .variants => (key, desugarVariants v) :: desugarMembers counted rest

/-- Fields as a list of entries. -/
def desugarFields : Json → Json
  | .object entries => .array (desugarEntries entries)
  | .array items => .array (desugarItems items)
  | v => v

def desugarEntries : List (String × Json) → List Json
  | [] => []
  | (name, v) :: rest =>
    .object [("name", .string name), ("type", desugar v)] :: desugarEntries rest

def desugarItems : List Json → List Json
  | [] => []
  | .object members :: rest => .object (desugarMembers countedInEntry members) :: desugarItems rest
  | item :: rest => item :: desugarItems rest

def desugarVariants : Json → Json
  | .array items => .array (desugarAll items)
  | v => v

def desugarAll : List Json → List Json
  | [] => []
  | item :: rest => desugar item :: desugarAll rest

end

/-- What a member with a role holds, without short forms. -/
def inRole : Role → Json → Json
  | .plain, v => v
  | .node, v => desugar v
  | .fields, v => desugarFields v
  | .variants, v => desugarVariants v

/-- An entry of a list of fields without short forms. -/
def desugarItem : Json → Json
  | .object members => .object (desugarMembers countedInEntry members)
  | item => item

theorem map_inRole_plain (held : Option Json) : held.map (inRole .plain) = held := by
  cases held <;> rfl

/-- A member that does not count is left out, and one that counts is written out in its role. -/
theorem desugarMembers_cons (counted : List (String × Role)) (key : String) (v : Json)
    (rest : List (String × Json)) :
    desugarMembers counted ((key, v) :: rest) =
      match counted.lookup key with
      | none => desugarMembers counted rest
      | some role => (key, inRole role v) :: desugarMembers counted rest := by
  rw [desugarMembers]
  cases counted.lookup key with
  | none => rfl
  | some role => cases role <;> rfl

theorem desugarItems_cons (item : Json) (rest : List Json) :
    desugarItems (item :: rest) = desugarItem item :: desugarItems rest := by
  cases item <;> rfl

/-! ### Members without short forms -/

/-- The members that count are kept, and each of them holds what its role makes of it. -/
theorem member?_desugarMembers (counted : List (String × Role)) (members : List (String × Json))
    (key : String) :
    Json.member? (desugarMembers counted members) key =
      (counted.lookup key).bind fun role => (Json.member? members key).map (inRole role) := by
  induction members with
  | nil => cases counted.lookup key <;> rfl
  | cons m rest ih =>
    obtain ⟨name, v⟩ := m
    rw [desugarMembers_cons, member?_cons]
    by_cases hname : name = key
    · subst hname
      -- A member that does not count is dropped under every one of its occurrences.
      cases hrole : counted.lookup name with
      | none =>
        rw [hrole] at ih
        exact ih
      | some role =>
        rw [if_pos rfl]
        exact (member?_cons ..).trans (if_pos rfl)
    · rw [if_neg hname, ← ih]
      cases counted.lookup name with
      | none => rfl
      | some role => exact (member?_cons ..).trans (if_neg hname)

theorem desugar_of_kind? (h : kind? v = some word) :
    desugar v = spellOut word (desugarMembers (counted word) (membersOf v)) := by
  cases v with
  | string bare =>
    obtain rfl := Option.some.inj h
    rfl
  | object members =>
    rw [desugar, kind?_object.1 h]
    rfl
  | _ => cases h

/-- The part that is written out under a key is the part under that key, in its role. -/
theorem part?_desugar (h : kind? v = some word) (hjson : word ≠ "json") (key : String) :
    part? (desugar v) key =
      ((counted word).lookup key).bind fun role => (part? v key).map (inRole role) := by
  rw [desugar_of_kind? h, spellOut, if_neg hjson]
  exact member?_desugarMembers _ _ _

/-- Writing out keeps the kind of a node. -/
theorem kind?_desugar (h : kind? v = some word) (hjson : word ≠ "json") :
    kind? (desugar v) = some word := by
  have hpart : part? (desugar v) "kind" = part? v "kind" :=
    (part?_desugar h hjson "kind").trans (map_inRole_plain _)
  rw [kind?, hpart]
  exact h

/-- What is no node is left as it is, so that the reader refuses both alike. -/
theorem desugar_of_kind?_eq_none (h : kind? v = none) : desugar v = v := by
  cases v with
  | string word => cases h
  | object members =>
    rw [desugar]
    split
    · next heq => rw [kind?_object.2 heq] at h; cases h
    · rfl
  | _ => rfl

/-! ### Fields in lists -/

theorem part?_name_desugarItem (item : Json) :
    part? (desugarItem item) "name" = part? item "name" := by
  cases item with
  | object members =>
    exact (member?_desugarMembers countedInEntry members "name").trans (map_inRole_plain _)
  | _ => rfl

theorem part?_type_desugarItem (item : Json) :
    part? (desugarItem item) "type" = (part? item "type").map desugar := by
  cases item with
  | object members => exact member?_desugarMembers _ _ _
  | string word => exact part?_string word (by decide)
  | _ => rfl

/-- An entry has the members of a field or lacks one, written out or not. -/
theorem isFieldEntry_desugarItem (item : Json) :
    isFieldEntry (desugarItem item) = isFieldEntry item := by
  rw [Bool.eq_iff_iff, isFieldEntry_iff, isFieldEntry_iff, part?_name_desugarItem,
    part?_type_desugarItem, Option.isSome_map]

theorem all_isFieldEntry_desugarItems (items : List Json) :
    (desugarItems items).all isFieldEntry = items.all isFieldEntry := by
  induction items with
  | nil => rfl
  | cons item rest ih =>
    rw [desugarItems_cons, List.all_cons, List.all_cons, isFieldEntry_desugarItem, ih]

/-- What is read from a node is read from the node without short forms, wherever it stands. -/
def Same (c : Json) : Prop := ∀ route, ofJson route (desugar c) = ofJson route c

/-- Fields that are listed are read alike, if their types are. -/
theorem ofFieldItems_desugarItems {items : List Json}
    (hentries : ∀ item ∈ items, isFieldEntry item = true)
    (ih : ∀ item ∈ items, ∀ name c, part? item "name" = some (.string name) →
      part? item "type" = some c → Same c) (route : Route) :
    ofFieldItems route (desugarItems items) = ofFieldItems route items := by
  induction items with
  | nil => rfl
  | cons item rest irest =>
    rw [List.forall_mem_cons] at hentries ih
    obtain ⟨hsomeName, hsomeType⟩ := isFieldEntry_iff.1 hentries.1
    obtain ⟨n, hname⟩ := Option.isSome_iff_exists.1 hsomeName
    obtain ⟨c, htype⟩ := Option.isSome_iff_exists.1 hsomeType
    have hname' := (part?_name_desugarItem item).trans hname
    have htype' : part? (desugarItem item) "type" = some (desugar c) := by
      rw [part?_type_desugarItem, htype]
      rfl
    rw [desugarItems_cons]
    -- A name that is no text stops the list in both, at the same place.
    by_cases htext : ∃ name, n = .string name
    · obtain ⟨name, rfl⟩ := htext
      rw [ofFieldItems_cons_of_name _ hname htype, ofFieldItems_cons_of_name _ hname' htype',
        ih.1 name c hname htype, irest hentries.2 ih.2]
    · have hother : ∀ name, n ≠ .string name := fun name h => htext ⟨name, h⟩
      rw [ofFieldItems_cons_of_not_text _ hname hother,
        ofFieldItems_cons_of_not_text _ hname' hother]

/-- Every entry that an object of fields becomes has the shape that a list of fields asks for. -/
theorem all_isFieldEntry_desugarEntries (entries : List (String × Json)) :
    (desugarEntries entries).all isFieldEntry = true := by
  induction entries with
  | nil => rfl
  | cons entry rest ih =>
    rw [desugarEntries, List.all_cons, ih]
    rfl

/-- Fields that are given as an object are read as the list that is written out for them. -/
theorem ofFieldItems_desugarEntries {entries : List (String × Json)}
    (ih : ∀ name c, (name, c) ∈ entries → Same c) (route : Route) :
    ofFieldItems route (desugarEntries entries) = ofEntries route entries := by
  induction entries with
  | nil => rfl
  | cons entry rest irest =>
    obtain ⟨name, c⟩ := entry
    have hrest := irest fun n d hmem => ih n d (List.mem_cons_of_mem _ hmem)
    have hname : part? (.object [("name", .string name), ("type", desugar c)]) "name" =
        some (.string name) := rfl
    have htype : part? (.object [("name", .string name), ("type", desugar c)]) "type" =
        some (desugar c) := rfl
    rw [desugarEntries, ofFieldItems_cons_of_name route hname htype, ofEntries,
      ih name c List.mem_cons_self, hrest]

/-- In either form, the fields of a record are read alike. -/
theorem ofFields_desugarFields (ih : ∀ name c, HasField v name c → Same c)
    (hfields : part? v "fields" = some c) (route : Route) :
    ofFields route (desugarFields c) = ofFields route c := by
  cases c with
  | object entries =>
    -- An object of fields has no check of shapes, but the list that it becomes passes it.
    show (if (desugarEntries entries).all isFieldEntry then _ else _) = ofEntries route entries
    rw [if_pos (all_isFieldEntry_desugarEntries entries)]
    exact ofFieldItems_desugarEntries (fun name c hmem => ih name c (.entry hfields hmem)) route
  | array items =>
    show (if (desugarItems items).all isFieldEntry then _ else _) = ofFields route (.array items)
    rw [all_isFieldEntry_desugarItems, ofFields]
    by_cases hall : items.all isFieldEntry = true
    · rw [if_pos hall, if_pos hall]
      exact ofFieldItems_desugarItems (List.all_eq_true.1 hall)
        (fun item hmem name c hname htype => ih name c (.item hfields hmem hname htype)) route
    · rw [if_neg hall, if_neg hall]
  | _ => rfl

/-! ### Variants -/

/-- The variants of a union are read alike, if each of them is. -/
theorem ofVariants_desugarAll {items : List Json} (ih : ∀ item ∈ items, Same item) (route : Route)
    (index : Nat) : ofVariants route index (desugarAll items) = ofVariants route index items := by
  induction items generalizing index with
  | nil => rfl
  | cons item rest irest =>
    rw [List.forall_mem_cons] at ih
    simp only [desugarAll, ofVariants, ih.1 _, irest ih.2]

theorem ofVariantList_desugarVariants (hkind : kind? v = some "union")
    (ih : ∀ edge c, Edge.Joins edge v c → Same c) (hvariants : part? v "variants" = some c)
    (route : Route) : ofVariantList route (desugarVariants c) = ofVariantList route c := by
  cases c with
  | array items =>
    have hitems : ∀ item ∈ items, Same item := by
      intro item hmem
      obtain ⟨index, hitem⟩ := List.mem_iff_getElem?.1 hmem
      exact ih _ item (.variant hkind hvariants hitem)
    exact ofVariants_desugarAll hitems route 0
  | _ => rfl

/-! ### Nodes -/

section Kinds

variable {α : Type} {route : Route}

/-- A step with a member that a kind needs. -/
theorem bind_required_desugar (hkind : kind? v = some kind.word) (hjson : kind.word ≠ "json")
    (hrole : (counted kind.word).lookup key = some role) {f g : Json → Except TypeFault α}
    (h : ∀ c, part? v key = some c → f (inRole role c) = g c) :
    (required route (desugar v) kind key >>= f) = required route v kind key >>= g := by
  unfold required
  rw [part?_desugar hkind hjson, hrole]
  cases hpart : part? v key with
  | none => rfl
  | some c => exact h c hpart

/-- A node of any kind is read alike, if what its edges lead to is. -/
theorem ofKind_desugar (hkind : kind? v = some kind.word) (hjson : kind.word ≠ "json")
    (ih : ∀ edge c, Edge.Joins edge v c → Same c) (route : Route) :
    ofKind route (desugar v) kind = ofKind route v kind := by
  cases kind with
  | primitive k => rfl
  | json => rfl
  | listOf =>
    apply bind_required_desugar hkind hjson rfl
    intro c hc
    exact congrArg _ (ih _ c (.element hkind hc) _)
  | dictOf =>
    apply bind_required_desugar hkind hjson rfl
    intro c hc
    exact congrArg _ (ih _ c (.value hkind hc) _)
  | optional =>
    apply bind_required_desugar hkind hjson rfl
    intro c hc
    exact congrArg _ (ih _ c (.inner hkind hc) _)
  | literal => exact bind_required_desugar hkind hjson rfl fun c _ => rfl
  | record =>
    apply bind_required_desugar hkind hjson rfl
    intro c hc
    have hfields : ∀ name c, HasField v name c → Same c := fun name c h => ih _ c (.field hkind h)
    exact congrArg _ (ofFields_desugarFields hfields hc route)
  | union =>
    apply bind_required_desugar hkind hjson rfl
    intro c hc
    exact congrArg _ (ofVariantList_desugarVariants hkind ih hc route)
  | reference => exact bind_required_desugar hkind hjson rfl fun c _ => rfl
  | «alias» =>
    apply bind_required_desugar hkind hjson rfl
    intro n hn
    -- The definition is read under the name of the alias, so the name comes first.
    cases hname : nameIn route n with
    | error f => rw [inRole, hname]; rfl
    | ok name =>
      rw [inRole, hname, ok_bind, ok_bind]
      apply bind_required_desugar hkind hjson rfl
      intro c hc
      have htext : part? v "name" = some (.string name) := eq_of_nameIn hname ▸ hn
      exact congrArg _ (ih _ c (.definition hkind htext hc) _)

end Kinds

/-- By induction along the edges, every value is read as it is written out. -/
theorem same (v : Json) : Same v := by
  induction v using node_induction with
  | step v ih =>
    intro route
    cases hkind : kind? v with
    | none => rw [desugar_of_kind?_eq_none hkind]
    | some word =>
      by_cases hjson : word = "json"
      · -- Only this kind turns into another one.
        subst hjson
        rw [desugar_of_kind? hkind, ofJson_of_kind? route hkind]
        rfl
      · rw [ofJson_of_kind? route hkind, ofJson_of_kind? route (kind?_desugar hkind hjson), ofWord,
          ofWord]
        cases hkindOf : NodeKind.ofName? word with
        | none => rfl
        | some kind =>
          obtain rfl := NodeKind.ofName?_eq_some.1 hkindOf
          exact ofKind_desugar hkind hjson ih route

/-- The value of a literal is no node: it stays as it is, and it is only read as a text. -/
theorem literal_value (hkind : kind? v = some "literal") :
    part? (desugar v) "value" = part? v "value" ∧
      ∀ route c, part? v "value" = some c → ofJson route v = textIn route c := by
  refine ⟨(part?_desugar hkind (by decide) "value").trans (map_inRole_plain _), ?_⟩
  intro route c hc
  rw [ofJson_of_kind? route hkind]
  show required route v .literal "value" >>= textIn route = _
  rw [required, hc]
  rfl

/-- **Short forms are nothing but sugar**: from every JSON value, and wherever it stands, the same
type or the same fault is read as from the value without short forms. The value of a literal is not
taken for a node in either. -/
theorem ofJson_desugar (v : Json) :
    (∀ route, ofJson route (desugar v) = ofJson route v) ∧
      (kind? v = some "literal" → part? (desugar v) "value" = part? v "value" ∧
        ∀ route c, part? v "value" = some c → ofJson route v = textIn route c) :=
  ⟨same v, literal_value⟩

/-- A literal whose text is the name of a kind. -/
def listLiteral : Json := .object [("kind", .string "literal"), ("value", .string "list")]

theorem ofJson_desugar_listLiteral :
    kind? listLiteral = some "literal" ∧
      part? (desugar listLiteral) "value" = part? listLiteral "value" ∧
      ofJson ["app"] (desugar listLiteral) = textIn ["app"] (.string "list") := by
  have hkind : kind? listLiteral = some "literal" := rfl
  obtain ⟨hsame, hvalue⟩ := ofJson_desugar listLiteral
  refine ⟨hkind, (hvalue hkind).1, ?_⟩
  rw [hsame]
  exact (hvalue hkind).2 ["app"] (.string "list") rfl

example : desugar (.object [("kind", .string "record"), ("note", .null), ("fields",
      .object [("title", .string "string"), ("data", .object [("kind", .string "json")])])]) =
    .object [("kind", .string "record"), ("fields", .array [
      .object [("name", .string "title"), ("type", .object [("kind", .string "string")])],
      .object [("name", .string "data"), ("type", .object [("kind", .string "alias"),
        ("name", .string "JsonValue"),
        ("definition", .object [("kind", .string "ref"), ("name", .string "JsonValue")])])]])] := by
  rfl

end BoundaryTypes.Node
