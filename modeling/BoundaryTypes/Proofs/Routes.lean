/-
  `Routes` — the routes of faults lead to what is wrong.

  A reading of a JSON node looks at the route to the node only to report it, and a fault that it
  reports is at a node inside, to which the route leads. Both are said together (`Located`), since
  both pass from the parts of a reading to the reading, and `located_ofJson` goes along the edges
  between nodes. For types, the checks of a translator have the same two properties
  (`Session.parallel_check`, `Session.reported_of_check`), and `faults_located` puts the two sides
  together.
-/
import BoundaryTypes.Proofs.Session.Violations
import BoundaryTypes.Proofs.Translator.Layouts
import BoundaryTypes.Proofs.TypeExpr.Node

namespace BoundaryTypes

open Outcome TypeExpr

/-- Routes in front of a fault add up. -/
theorem TypeFault.behind_behind (front route : Route) (f : TypeFault) :
    (f.behind route).behind front = f.behind (front ++ route) := by
  rw [behind, behind, behind, List.append_assoc]

namespace Node

variable {α β : Type} {v c w item root : Json} {edge : Edge} {path : List Edge}
  {key name word : String} {kind : NodeKind} {role : Role} {cause : Cause} {f : TypeFault}

/-! ### Paths and faults -/

/-- A path that leads from a node to a node inside it. -/
inductive Leads : Json → List Edge → Json → Prop
  | here {v : Json} : Leads v [] v
  | step {v c w : Json} {edge : Edge} {path : List Edge} (hedge : edge.Joins v c)
    (h : Leads c path w) : Leads v (edge :: path) w

/-- The route that a path spells. -/
def spelled (path : List Edge) : Route := path.flatMap Edge.labels

/-- What a fault with this cause says of the node at which it lies. -/
def Violates (v : Json) : Cause → Prop
  | .nodeNotObject => (∀ members, v ≠ .object members) ∧ ∀ word, v ≠ .string word
  | .kindMissing => (∃ members, v = .object members) ∧ kind? v = none
  | .unknownKind word => kind? v = some word ∧ NodeKind.ofName? word = none
  | .keyMissing word key => kind? v = some word ∧ part? v key = none ∧
      ∃ kind : NodeKind, kind.word = word ∧ key ∈ kind.members.map (·.1)
  | .literalNotText => kind? v = some "literal" ∧
      ∃ c, part? v "value" = some c ∧ ∀ text, c ≠ .string text
  | .aliasNameEmpty => (kind? v = some "alias" ∨ kind? v = some "ref") ∧
      ∃ c, part? v "name" = some c ∧ ∀ name, c = .string name → name = ""
  | .fieldsShape => kind? v = some "record" ∧ ∃ c, part? v "fields" = some c ∧
      (∀ entries, c ≠ .object entries) ∧ ∀ items, c ≠ .array items
  | .fieldEntryShape => kind? v = some "record" ∧ ∃ items, part? v "fields" = some (.array items) ∧
      ∃ item ∈ items, part? item "name" = none ∨ part? item "type" = none
  | .fieldNameNotText c => kind? v = some "record" ∧
      ∃ items, part? v "fields" = some (.array items) ∧
        ∃ item ∈ items, part? item "name" = some c ∧ ∀ name, c ≠ .string name
  | .variantsNotList => kind? v = some "union" ∧
      ∃ c, part? v "variants" = some c ∧ ∀ items, c ≠ .array items
  | .variantShape index => kind? v = some "union" ∧
      ∃ items item, part? v "variants" = some (.array items) ∧ items[index]? = some item ∧
        kind? item ≠ some "record" ∧ kind? item ≠ some "literal"
  | _ => False

/-- A path to a node inside spells the route of a fault, and the node is as the fault says. -/
def Reported (v : Json) (f : TypeFault) : Prop :=
  ∃ path w, Leads v path w ∧ spelled path = f.route ∧ Violates w f.cause

theorem reported_here (h : Violates v cause) : Reported v ⟨cause, []⟩ := ⟨[], v, .here, rfl, h⟩

/-- What is reported in a part of a node is reported in the node, behind the labels that lead to the
part. -/
theorem Reported.outward (h : Reported c f) (hedge : edge.Joins v c) :
    Reported v (f.behind edge.labels) := by
  obtain ⟨path, w, hleads, hroute, hviolates⟩ := h
  refine ⟨edge :: path, w, .step hedge hleads, ?_, hviolates⟩
  rw [spelled, List.flatMap_cons, TypeFault.behind, ← hroute, spelled]

/-! ### Readings -/

/-- A reading that looks at its route only to report it, and that reports faults inside the node. -/
structure Located (v : Json) (read : Route → Except TypeFault α) : Prop where
  shift : ∀ front route, read (front ++ route) = (read route).mapError (·.behind front)
  reported : ∀ f, read [] = .error f → Reported v f

/-- A reading reports behind its route what it reports at the root. -/
theorem Located.eq_behind {read : Route → Except TypeFault α} (h : Located v read)
    (route : Route) : read route = (read []).mapError (·.behind route) := by
  rw [← h.shift route [], List.append_nil]

theorem located_ok (a : α) : Located v fun _ => .ok a := ⟨fun _ _ => rfl, nofun⟩

theorem located_refuse (h : Violates v cause) :
    Located v fun route => (refuse route cause : Except TypeFault α) :=
  ⟨fun _ _ => rfl, fun _ hf => by cases hf; exact reported_here h⟩

/-- Readings whose faults are located can be put in sequence. -/
theorem Located.bind {x : Route → Except TypeFault α} {g : α → Route → Except TypeFault β}
    (hx : Located v x) (hg : ∀ a, x [] = .ok a → Located v (g a)) :
    Located v fun route => x route >>= fun a => g a route := by
  constructor
  · intro front route
    rw [hx.eq_behind (front ++ route), hx.eq_behind route]
    cases h : x [] with
    | ok a => exact (hg a h).shift front route
    | error f => exact congrArg Except.error (TypeFault.behind_behind front route f).symm
  · intro f h
    -- The second step is reached only if the first one gave a value, which no route changes.
    cases ha : x [] with
    | ok a =>
      rw [ha] at h
      exact (hg a ha).reported f h
    | error g =>
      rw [ha] at h
      cases h
      exact hx.reported _ ha

theorem Located.map {x : Route → Except TypeFault α} (g : α → β) (hx : Located v x) :
    Located v fun route => (x route).map g := by
  constructor
  · intro front route
    rw [hx.shift front route]
    cases x route <;> rfl
  · intro f h
    cases hfirst : x [] with
    | ok a => rw [hfirst] at h; cases h
    | error g => rw [hfirst] at h; cases h; exact hx.reported _ hfirst

/-- The reading of a node inside, at the end of the edge to it. -/
theorem Located.inside (h : Located c fun route => ofJson route c) (hedge : edge.Joins v c) :
    Located v fun route => ofJson (route ++ edge.labels) c := by
  constructor
  · intro front route
    rw [List.append_assoc]
    exact h.shift front (route ++ edge.labels)
  · intro f hf
    rw [List.nil_append, h.eq_behind] at hf
    cases hinner : ofJson [] c with
    | ok e => rw [hinner] at hf; cases hf
    | error g =>
      rw [hinner] at hf
      cases hf
      exact (h.reported g hinner).outward hedge

/-! ### Members of a node -/

/-- A member that is required and missing is a violation at the node itself. -/
theorem located_required (hkind : kind? v = some kind.word) (hkey : (key, role) ∈ kind.members) :
    Located v fun route => required route v kind key := by
  unfold required
  cases h : part? v key with
  | some c => exact located_ok c
  | none => exact located_refuse ⟨hkind, h, kind, rfl, List.mem_map_of_mem hkey⟩

theorem part?_of_required (h : required [] v kind key = .ok c) : part? v key = some c := by
  unfold required at h
  split at h
  · next hpart => rw [hpart, Except.ok.inj h]
  · cases h

/-- The reading of a node that a member holds. -/
theorem Located.member (wrap : TypeExpr → TypeExpr) (hkind : kind? v = some kind.word)
    (hkey : (key, role) ∈ kind.members)
    (hedge : ∀ c, part? v key = some c → edge.Joins v c)
    (ih : ∀ edge c, Edge.Joins edge v c → Located c fun route => ofJson route c) :
    Located v fun route =>
      required route v kind key >>= fun c => (ofJson (route ++ edge.labels) c).map wrap := by
  apply (located_required hkind hkey).bind
  intro c hc
  have hjoins := hedge c (part?_of_required hc)
  exact ((ih edge c hjoins).inside hjoins).map wrap

theorem located_nameIn (hkind : kind? v = some "alias" ∨ kind? v = some "ref")
    (hname : part? v "name" = some c) : Located v fun route => nameIn route c := by
  cases c with
  | string name =>
    by_cases hempty : name = ""
    · simp only [nameIn, if_pos hempty]
      exact located_refuse ⟨hkind, _, hname, fun _ h => (Json.string.inj h) ▸ hempty⟩
    · simp only [nameIn, if_neg hempty]
      exact located_ok name
  | _ => exact located_refuse ⟨hkind, _, hname, by simp⟩

/-- The text of a literal that is none is a violation at the literal. -/
theorem located_textIn (hkind : kind? v = some "literal") (hvalue : part? v "value" = some c) :
    Located v fun route => textIn route c := by
  cases c with
  | string text => exact located_ok _
  | _ => exact located_refuse ⟨hkind, _, hvalue, by simp⟩

/-! ### Fields and variants -/

section Inside

variable (ih : ∀ edge c, Edge.Joins edge v c → Located c fun route => ofJson route c)

include ih

/-- Fields given as an object are located by their names. -/
theorem located_ofEntries {entries : List (String × Json)} (hkind : kind? v = some "record")
    (hfields : ∀ name c, (name, c) ∈ entries → HasField v name c) :
    Located v fun route => ofEntries route entries := by
  induction entries with
  | nil => exact located_ok []
  | cons entry rest irest =>
    obtain ⟨name, c⟩ := entry
    have hjoins := Edge.Joins.field hkind (hfields name c List.mem_cons_self)
    simp only [ofEntries]
    apply ((ih _ c hjoins).inside hjoins).bind
    intro e _
    have hrest := irest fun n d hmem => hfields n d (List.mem_cons_of_mem _ hmem)
    exact hrest.bind fun es _ => located_ok ((name, e) :: es)

/-- Fields given as a list are located by the names in them. -/
theorem located_ofFieldItems {items rest : List Json} (hkind : kind? v = some "record")
    (hitems : part? v "fields" = some (.array items)) (hrest : ∀ item ∈ rest, item ∈ items)
    (hentries : ∀ item ∈ rest, isFieldEntry item = true) :
    Located v fun route => ofFieldItems route rest := by
  induction rest with
  | nil => exact located_ok []
  | cons item rest irest =>
    rw [List.forall_mem_cons] at hrest hentries
    obtain ⟨hsomeName, hsomeType⟩ := isFieldEntry_iff.1 hentries.1
    obtain ⟨n, hname⟩ := Option.isSome_iff_exists.1 hsomeName
    obtain ⟨c, htype⟩ := Option.isSome_iff_exists.1 hsomeType
    -- An entry of the right shape may have a name that is no text.
    by_cases htext : ∃ name, n = .string name
    · obtain ⟨name, rfl⟩ := htext
      have hjoins := Edge.Joins.field hkind (.item hitems hrest.1 hname htype)
      simp only [ofFieldItems_cons_of_name _ hname htype]
      apply ((ih _ c hjoins).inside hjoins).bind
      intro e _
      exact (irest hrest.2 hentries.2).bind fun es _ => located_ok ((name, e) :: es)
    · have hother : ∀ name, n ≠ .string name := fun name h => htext ⟨name, h⟩
      simp only [ofFieldItems_cons_of_not_text _ hname hother]
      exact located_refuse ⟨hkind, items, hitems, item, hrest.1, hname, hother⟩

omit ih in
theorem missing_of_not_isFieldEntry (h : ¬isFieldEntry item = true) :
    part? item "name" = none ∨ part? item "type" = none := by
  rw [isFieldEntry_iff] at h
  cases hname : part? item "name" with
  | none => exact .inl rfl
  | some n =>
    cases htype : part? item "type" with
    | none => exact .inr rfl
    | some c => exact absurd ⟨by simp [hname], by simp [htype]⟩ h

theorem located_ofFields (hkind : kind? v = some "record") (hfields : part? v "fields" = some c) :
    Located v fun route => ofFields route c := by
  cases c with
  | object entries => exact located_ofEntries ih hkind fun _ _ hmem => .entry hfields hmem
  | array items =>
    -- The shapes of all entries are checked before any of them is read.
    by_cases hall : items.all isFieldEntry = true
    · simp only [ofFields, if_pos hall]
      exact located_ofFieldItems ih hkind hfields (fun _ h => h) (List.all_eq_true.1 hall)
    · simp only [ofFields, if_neg hall]
      apply located_refuse
      refine ⟨hkind, items, hfields, ?_⟩
      obtain ⟨item, hmem, hitem⟩ := List.all_eq_false.1 (Bool.eq_false_iff.2 hall)
      exact ⟨item, hmem, missing_of_not_isFieldEntry hitem⟩
  | _ => exact located_refuse ⟨hkind, _, hfields, by simp, by simp⟩

omit ih in
/-- A record node or a literal node holds a variant. -/
theorem isVariant_of_ofJson {e : TypeExpr} {route : Route} (h : ofJson route v = .ok e)
    (hkind : kind? v = some "record" ∨ kind? v = some "literal") : isVariant e = true := by
  rcases hkind with hkind | hkind
  · rw [ofJson_of_kind? route hkind] at h
    obtain ⟨c, -, hfields⟩ := bind_eq_ok.1 (show ofKind route v .record = .ok e from h)
    obtain ⟨fields, -, rfl⟩ := map_eq_ok.1 hfields
    rfl
  · rw [ofJson_of_kind? route hkind] at h
    obtain ⟨c, -, htext⟩ := bind_eq_ok.1 (show ofKind route v .literal = .ok e from h)
    cases c with
    | string text => cases htext; rfl
    | _ => cases htext

/-- Variants are located by their numbers, which count those before them. -/
theorem located_ofVariants {items before rest : List Json} (hkind : kind? v = some "union")
    (hitems : part? v "variants" = some (.array items)) (hsplit : items = before ++ rest) :
    Located v fun route => ofVariants route before.length rest := by
  induction rest generalizing before with
  | nil => exact located_ok []
  | cons item rest irest =>
    have hitem : items[before.length]? = some item := by simp [hsplit]
    have hjoins := Edge.Joins.variant hkind hitems hitem
    simp only [ofVariants]
    apply ((ih _ item hjoins).inside hjoins).bind
    intro e he
    cases hvariant : isVariant e with
    | true =>
      have hnext : items = (before ++ [item]) ++ rest := by simp [hsplit]
      have hrest := irest hnext
      rw [List.length_append] at hrest
      exact hrest.bind fun es _ => located_ok (e :: es)
    | false =>
      -- The fault is reported at the union, though the item was read.
      have hother : ¬(kind? item = some "record" ∨ kind? item = some "literal") :=
        fun h => absurd (isVariant_of_ofJson he h) (by simp [hvariant])
      exact located_refuse ⟨hkind, items, item, hitems, hitem, not_or.1 hother⟩

theorem located_ofVariantList (hkind : kind? v = some "union")
    (hvariants : part? v "variants" = some c) : Located v fun route => ofVariantList route c := by
  cases c with
  | array items => exact located_ofVariants ih hkind hvariants (List.nil_append items).symm
  | _ => exact located_refuse ⟨hkind, _, hvariants, by simp⟩

/-! ### Nodes -/

/-- A node of any kind has its faults located. -/
theorem located_ofKind (hkind : kind? v = some kind.word) :
    Located v fun route => ofKind route v kind := by
  have hkey : ∀ {key role}, (key, role) ∈ kind.members →
      Located v fun route => required route v kind key := located_required hkind
  cases kind with
  | primitive k => exact located_ok _
  | json => exact located_ok _
  | listOf => exact .member _ hkind List.mem_cons_self (fun _ => .element hkind) ih
  | dictOf => exact .member _ hkind List.mem_cons_self (fun _ => .value hkind) ih
  | optional =>
    have hinner := Located.member .optional hkind List.mem_cons_self (fun _ => .inner hkind) ih
    simp only [Edge.labels, List.append_nil] at hinner
    exact hinner
  | literal =>
    exact (hkey List.mem_cons_self).bind fun c hc => located_textIn hkind (part?_of_required hc)
  | record =>
    exact (hkey List.mem_cons_self).bind fun c hc =>
      (located_ofFields ih hkind (part?_of_required hc)).map _
  | union =>
    exact (hkey List.mem_cons_self).bind fun c hc =>
      (located_ofVariantList ih hkind (part?_of_required hc)).map _
  | reference =>
    exact (hkey List.mem_cons_self).bind fun c hc =>
      (located_nameIn (.inr hkind) (part?_of_required hc)).map _
  | «alias» =>
    apply (hkey List.mem_cons_self).bind
    intro n hn
    apply (located_nameIn (.inl hkind) (part?_of_required hn)).bind
    intro name hname
    obtain rfl := eq_of_nameIn hname
    have hdefinition : ∀ c, part? v "definition" = some c → Edge.Joins (.definition name) v c :=
      fun c => .definition hkind (part?_of_required hn)
    exact .member _ hkind (List.mem_cons_of_mem _ List.mem_cons_self) hdefinition ih

end Inside

/-- The reading of a node is located. -/
theorem located_ofJson (v : Json) : Located v fun route => ofJson route v := by
  induction v using node_induction with
  | step v ih =>
    cases hkind : kind? v with
    | some word =>
      simp only [ofJson_of_kind? _ hkind, ofWord]
      cases hkindOf : NodeKind.ofName? word with
      | none => exact located_refuse ⟨hkind, hkindOf⟩
      | some kind =>
        rw [NodeKind.ofName?_eq_some.1 hkindOf] at hkind
        exact located_ofKind ih hkind
    | none =>
      rcases ofJson_of_kind?_eq_none hkind with ⟨hobject, hread⟩ | ⟨hother, hread⟩
      · simp only [hread]
        exact located_refuse ⟨hobject, hkind⟩
      · simp only [hread]
        exact located_refuse hother

end Node

namespace Translator

open Session

/-- An outcome with a route in front of that of its fault. -/
def further {α : Type} (front : Route) :
    EStateM.Result TypeFault Translator α → EStateM.Result TypeFault Translator α
  | .ok a t => .ok a t
  | .error f t => .error (f.behind front) t

variable {reserved : List String}

/-- A new translator that writes a type further along a route comes to the same outcome, but for
the front of the route of a fault. -/
theorem translate_new_behind (e : TypeExpr) (front : Route) :
    translate e front (new reserved) = further front (translate e [] (new reserved)) := by
  have hkeeps : KeepsStep [] front e := parallel_check e (avoids_nil e)
  have hchecks := hkeeps [] [] [] (fun _ _ => Iff.rfl) _ _ (Alike.refl [] (empty reserved))
  rw [List.append_nil] at hchecks
  rw [translate_new, translate_new]
  generalize hinside : check [] [] e (empty reserved) = r at hchecks
  generalize hbehind : check [] front e (empty reserved) = r' at hchecks
  -- The two checks end alike, and what is written afterwards depends on no route.
  cases hchecks with
  | ok hlater =>
    obtain rfl := hlater.eq
    rw [bind_run_of_ok _ hinside, bind_run_of_ok _ hbehind]
    rfl
  | error hlater =>
    obtain rfl := hlater.eq
    rw [bind_run_of_error _ hinside, bind_run_of_error _ hbehind]
    rfl

/-- A new translator fails at a part of the type, which is as the fault says. -/
theorem reported_of_translate_new {e : TypeExpr} {f : TypeFault} {t : Translator}
    (h : translate e [] (new reserved) = .error f t) : TypeExpr.Reported reserved e f := by
  rw [translate_new] at h
  cases hcheck : check [] [] e (empty reserved) with
  | ok u s => rw [bind_run_of_ok _ hcheck] at h; cases h
  | error g s =>
    rw [bind_run_of_error _ hcheck] at h
    cases h
    exact reported_of_check hcheck

/-- **The routes of faults are real**, and nothing else depends on where a type or a node stands.
-/
theorem routes_real (reserved : List String) (front : Route) (e : TypeExpr) (v : Json) :
    translate e front (new reserved) = further front (translate e [] (new reserved)) ∧
      (∀ f t, translate e [] (new reserved) = .error f t → TypeExpr.Reported reserved e f) ∧
      ofJson front v = (ofJson [] v).mapError (·.behind front) ∧
      ∀ f, ofJson [] v = .error f → Node.Reported v f := by
  have hnode := Node.located_ofJson v
  exact ⟨translate_new_behind e front, fun _ _ => reported_of_translate_new, hnode.eq_behind front,
    hnode.reported⟩

/-- A record with a list of types that may be missing. -/
def sizes : TypeExpr := .record [("size", .listOf (.optional (.primitive .number)))]

/-- The node of a record with a list of nothing. -/
def sizesNode : Json :=
  .object [("kind", .string "record"), ("fields", .object [("size", .string "list")])]

theorem routes_real_sizes :
    (∃ t, translate sizes [] (new ["ElmApp"]) =
        .error ⟨.optionalOutsideField, ["size", "[]"]⟩ t) ∧
      TypeExpr.Reported ["ElmApp"] sizes ⟨.optionalOutsideField, ["size", "[]"]⟩ ∧
      ofJson [] sizesNode = .error ⟨.keyMissing "list" "element", ["size"]⟩ ∧
      Node.Reported sizesNode ⟨.keyMissing "list" "element", ["size"]⟩ := by
  have htranslate : ∃ t, translate sizes [] (new ["ElmApp"]) =
      .error ⟨.optionalOutsideField, ["size", "[]"]⟩ t := ⟨_, rfl⟩
  have hnode : ofJson [] sizesNode = .error ⟨.keyMissing "list" "element", ["size"]⟩ := rfl
  obtain ⟨t, ht⟩ := htranslate
  have hreal := routes_real ["ElmApp"] ["app"] sizes sizesNode
  exact ⟨⟨t, ht⟩, hreal.2.1 _ t ht, hnode, hreal.2.2.2 _ hnode⟩

end Translator

end BoundaryTypes
