/-
  `Violations` — where a fault of a check lies, and what is wrong there.

  A path goes from a type to one of its parts, edge by edge (`Leads`), and spells a route: each
  edge has its label, but for the edge to the type of a key that may be missing. A check that
  goes down an edge puts the label of the edge on its route, and the alias that the edge opens,
  if any, on its scopes. So wherever it fails, its route is spelled by a path to a part of the
  type, and the part violates what the fault says (`Reported`).

  `Ensures` carries this through sequences of steps. The one thing that a check takes from the
  session is the definition that an alias conflicts with, so it is kept as an invariant that
  all known aliases are aliases of the type (`Gathered`).
-/
import BoundaryTypes.Proofs.Session.Checks

namespace BoundaryTypes

namespace TypeExpr

variable {root p c e : TypeExpr} {path : List Edge} {name : String}

/-! ### Paths to parts -/

/-- A step from a type to one of its children. -/
inductive Edge where
  | element
  | value
  | inner
  | field (name : String)
  | variant (tag : String)
  | definition (name : String)
deriving DecidableEq, Repr

/-- What a route says of an edge. -/
def Edge.labels : Edge → Route
  | .element => [listStep]
  | .value => [dictStep]
  | .inner => []
  | .field name | .variant name | .definition name => [name]

/-- The alias that an edge opens. -/
def Edge.opens? : Edge → Option String
  | .definition name => some name
  | _ => none

/-- Edges join types to their children; a variant is told by its tag. -/
inductive Edge.Joins : Edge → TypeExpr → TypeExpr → Prop
  | element {e : TypeExpr} : Joins .element (.listOf e) e
  | value {e : TypeExpr} : Joins .value (.dictOf e) e
  | inner {e : TypeExpr} : Joins .inner (.optional e) e
  | field {fields : List (String × TypeExpr)} {name : String} {e : TypeExpr}
    (h : (name, e) ∈ fields) : Joins (.field name) (.record fields) e
  | variant {variants : List TypeExpr} {tag : String} {v : TypeExpr} (h : v ∈ variants)
    (htag : Session.tag? v = some tag) : Joins (.variant tag) (.union variants) v
  | definition {name : String} {e : TypeExpr} : Joins (.definition name) (.alias name e) e

/-- A path that leads from a type to one of its parts. -/
inductive Leads (root : TypeExpr) : List Edge → TypeExpr → Prop
  | here : Leads root [] root
  | step {path : List Edge} {edge : Edge} {p c : TypeExpr} (h : Leads root path p)
    (hedge : edge.Joins p c) : Leads root (path ++ [edge]) c

/-- The route that a path spells. -/
def spelled (path : List Edge) : Route := path.flatMap Edge.labels

/-- The aliases that a path opens, the innermost first. -/
def opened (path : List Edge) : List String := (path.filterMap Edge.opens?).reverse

theorem spelled_concat (path : List Edge) (edge : Edge) :
    spelled (path ++ [edge]) = spelled path ++ edge.labels := by
  simp [spelled]

theorem opened_concat (path : List Edge) (edge : Edge) :
    opened (path ++ [edge]) = edge.opens?.toList ++ opened path := by
  cases h : edge.opens? <;> simp [opened, h]

/-- An edge joins a type to one of its children. -/
theorem Edge.Joins.mem_children {edge : Edge} (h : edge.Joins p c) : c ∈ p.children := by
  cases h with
  | field h => exact List.mem_map_of_mem h
  | variant h _ => exact h
  | _ => exact List.mem_cons_self

/-- What a path leads to is a part of the type from which it sets out. -/
theorem Leads.mem_preorder (h : Leads root path p) : p ∈ root.preorder := by
  induction h with
  | here => exact mem_preorder_self root
  | step h hedge ih =>
    -- One edge leads into the preorder of a part that is in the preorder itself.
    have hchild := mem_preorder_iff.2 (.inr ⟨_, hedge.mem_children, mem_preorder_self _⟩)
    exact mem_preorder_trans hchild ih

/-- The last edge of a path is not that of a field. -/
def OffField (path : List Edge) : Prop := ∀ name, path.getLast? ≠ some (.field name)

theorem offField_nil : OffField [] := nofun

/-- A path whose last edge is no field does not end at a field. -/
theorem offField_concat {edge : Edge} (h : ∀ name, edge ≠ .field name) :
    OffField (path ++ [edge]) := by
  intro name hlast
  rw [List.getLast?_concat] at hlast
  exact h name (Option.some.inj hlast)

/-! ### What faults say of parts -/

/-- What a fault with this cause says of the part `p` of a type that a path leads to. -/
def Violates (reserved : List String) (root : TypeExpr) (path : List Edge) (p : TypeExpr) :
    Cause → Prop
  | .optionalOutsideField => p.isOptional = true ∧ OffField path
  | .emptyFieldName => ∃ fields, p = .record fields ∧ "" ∈ fields.map (·.1)
  | .repeatedField name => ∃ fields, p = .record fields ∧ 2 ≤ (fields.map (·.1)).count name
  | .mixedUnion => ∃ variants, p = .union variants ∧ (∃ v ∈ variants, v.literal? = none) ∧
      ∃ v ∈ variants, v.fields? = none
  | .tagMissing index => ∃ variants fields, p = .union variants ∧
      variants[index]? = some (.record fields) ∧ Session.tag? (.record fields) = none
  | .repeatedTag tag => ∃ variants, p = .union variants ∧
      (2 ≤ (variants.map literal?).count (some tag) ∨
        2 ≤ (variants.map Session.tag?).count (some tag))
  | .unresolved name => p = .reference name ∧ name ∉ opened path
  | .notTypeName name => ∃ definition, p = .alias name definition ∧ isTypeName name = false
  -- The route to an alias that conflicts goes on to its definition.
  | .wrapperClash name => path.getLast? = some (.definition name) ∧ name ∈ reserved
  | .jsonValueRedefined =>
    path.getLast? = some (.definition jsonValueName) ∧ p ≠ .reference jsonValueName
  | .conflictingAlias name => path.getLast? = some (.definition name) ∧
      ∃ other, (name, other) ∈ root.aliases ∧ other ≠ p
  | _ => False

/-- A path to a part of the type spells the route of a fault, and the part is as the fault says. -/
def Reported (reserved : List String) (root : TypeExpr) (f : TypeFault) : Prop :=
  ∃ path p, Leads root path p ∧ spelled path = f.route ∧ Violates reserved root path p f.cause

end TypeExpr

namespace Session

open Outcome TypeExpr

variable {α β : Type} {I : Session → Prop} {Q : TypeFault → Prop} {route : Route}
  {scopes reserved seen : List String} {name : String} {definition root p e : TypeExpr}
  {path : List Edge}

/-! ### Steps that keep an invariant and report their faults -/

/-- From a session with `I`, a step ends well in a session with `I`, or in a fault with `Q`. -/
def Ensures (I : Session → Prop) (Q : TypeFault → Prop) (x : SessionM α) : Prop :=
  ∀ s, I s → (∀ a t, x s = .ok a t → I t) ∧ ∀ f t, x s = .error f t → Q f

theorem ensures_pure (a : α) : Ensures I Q (pure a) :=
  fun _ hs => ⟨fun _ _ h => by cases h; exact hs, nofun⟩

/-- A refusal with a fault of the wanted kind leaves nothing to keep. -/
theorem ensures_refuse {cause : Cause} (h : Q ⟨cause, route⟩) :
    Ensures I Q (refuse route cause : SessionM α) :=
  fun _ _ => ⟨nofun, fun _ _ hx => by cases hx; exact h⟩

theorem ensures_modify {g : Session → Session} (h : ∀ s, I s → I (g s)) :
    Ensures I Q (modify g) :=
  fun s hs => ⟨fun _ _ hx => modify_run_eq_ok.1 hx ▸ h s hs, nofun⟩

/-- What two steps keep and report alike, their sequence keeps and reports. -/
theorem Ensures.bind {x : SessionM α} {g : α → SessionM β} (hx : Ensures I Q x)
    (hg : ∀ a, Ensures I Q (g a)) : Ensures I Q (x >>= g) := by
  intro s hs
  constructor
  · intro b u h
    obtain ⟨a, t, hfirst, hrest⟩ := bind_run_eq_ok.1 h
    exact (hg a t ((hx s hs).1 a t hfirst)).1 b u hrest
  · intro f u h
    -- The fault of a sequence is one of its first step, or of the next from a session with `I`.
    rcases bind_run_eq_error.1 h with hfirst | ⟨a, t, hfirst, hrest⟩
    · exact (hx s hs).2 f u hfirst
    · exact (hg a t ((hx s hs).1 a t hfirst)).2 f u hrest

/-- All aliases that a session knows are aliases of the type. -/
structure Gathered (reserved : List String) (root : TypeExpr) (s : Session) : Prop where
  reserved : s.reserved = reserved
  known : ∀ n D, s.Knows n D → (n, D) ∈ root.aliases

theorem gathered_empty (reserved : List String) (root : TypeExpr) :
    Gathered reserved root (empty reserved) :=
  ⟨rfl, fun _ _ h => absurd h (not_knows_of_eq_none rfl)⟩

/-- A session that has gathered aliases of the root goes on to do so with one more of them. -/
theorem Gathered.define {s : Session} (h : Gathered reserved root s)
    (hmem : (name, definition) ∈ root.aliases) :
    Gathered reserved root (s.define name definition) := by
  refine ⟨h.reserved, fun n D hD => ?_⟩
  rcases knows_define_iff.1 hD with ⟨rfl, rfl⟩ | ⟨-, hD⟩
  · exact hmem
  · exact h.known n D hD

/-! ### Faults at parts -/

/-- The check of a part, at the end of the route that a path spells and inside the definitions that
it opens, reports its faults. -/
def Reports (reserved : List String) (root p : TypeExpr) : Prop :=
  ∀ path, Leads root path p → (p.isOptional = true → OffField path) →
    Ensures (Gathered reserved root) (Reported reserved root)
      (check (opened path) (spelled path) p)

/-- A condition violated at the end of a path is reported there. -/
theorem reported_here (h : Leads root path p) {cause : Cause}
    (hviolates : Violates reserved root path p cause) :
    Reported reserved root ⟨cause, spelled path⟩ :=
  ⟨path, p, h, rfl, hviolates⟩

/-- The check of a child that is no definition. -/
theorem Reports.child {edge : Edge} {label : String} (h : Reports reserved root e)
    (hleads : Leads root path p) (hedge : edge.Joins p e) (hlabels : edge.labels = [label])
    (hopens : edge.opens? = none) (hoff : e.isOptional = true → ∀ name, edge ≠ .field name) :
    Ensures (Gathered reserved root) (Reported reserved root)
      (check (opened path) (spelled path ++ [label]) e) := by
  have hcheck := h (path ++ [edge]) (hleads.step hedge) fun ho => offField_concat (hoff ho)
  rw [opened_concat, spelled_concat, hlabels, hopens] at hcheck
  exact hcheck

/-- The check of the type of a field, whether its key may be missing or not. -/
theorem Reports.field {fields : List (String × TypeExpr)} {f : String × TypeExpr}
    (h : Reports reserved root f.2.unmarked) (hleads : Leads root path (.record fields))
    (hf : f ∈ fields) :
    Ensures (Gathered reserved root) (Reported reserved root)
      (check (opened path) (spelled path ++ [f.1]) f.2.unmarked) := by
  obtain ⟨name, e⟩ := f
  have hfield : (Edge.field name).Joins (.record fields) e := .field hf
  cases e with
  | optional inner =>
    -- Two edges lead to the type, but only the first one has a label.
    have hinner := (hleads.step hfield).step .inner
    have hcheck := h _ hinner fun _ => offField_concat nofun
    rw [opened_concat, opened_concat, spelled_concat, spelled_concat] at hcheck
    simpa [Edge.opens?, Edge.labels] using hcheck
  | _ => exact Reports.child h hleads hfield rfl rfl fun ho => by cases ho

theorem count_append_cons_ge {γ : Type} [BEq γ] [LawfulBEq γ] {before rest : List γ} {a : γ}
    (h : a ∈ before) : 2 ≤ (before ++ a :: rest).count a := by
  have hbefore := List.count_pos_iff.2 h
  rw [List.count_append, List.count_cons_self]
  omega

/-! ### Records and unions -/

/-- The fields of a record are checked in order: an empty or repeated name is reported at the
record, and the type of a field at the step of its name. -/
theorem ensures_checkFields {fields before rest : List (String × TypeExpr)}
    (ih : ∀ f ∈ fields, Reports reserved root f.2.unmarked)
    (hleads : Leads root path (.record fields)) (hsplit : fields = before ++ rest)
    (hseen : ∀ n ∈ seen, n ∈ before.map (·.1)) :
    Ensures (Gathered reserved root) (Reported reserved root)
      (checkFields (opened path) (spelled path) seen rest) := by
  -- `before` are the fields that were checked: their names are the ones that were seen.
  induction rest generalizing before seen with
  | nil => exact ensures_pure _
  | cons f rest ihrest =>
    have hf : f ∈ fields := by simp [hsplit]
    have hnames : fields.map (·.1) = before.map (·.1) ++ f.1 :: rest.map (·.1) := by simp [hsplit]
    rw [checkFields_cons]
    split
    · next hempty =>
      refine ensures_refuse (reported_here hleads ⟨fields, rfl, ?_⟩)
      rw [← hempty]
      exact List.mem_map_of_mem hf
    split
    · next hrepeated =>
      -- The name was seen among the fields before, and it is here again.
      refine ensures_refuse (reported_here hleads ⟨fields, rfl, ?_⟩)
      rw [hnames]
      exact count_append_cons_ge (hseen f.1 hrepeated)
    · apply ((ih f hf).field hleads hf).bind
      intro _
      have hnext : fields = (before ++ [f]) ++ rest := by simp [hsplit]
      apply ihrest hnext
      · intro n hn
        rcases List.mem_cons.1 hn with rfl | hn
        · simp
        · simp only [List.map_append, List.mem_append]
          exact .inl (hseen n hn)

/-- A literal that was met before is a repetition in the enumeration. -/
theorem ensures_checkLiterals {before rest : List String}
    (hleads : Leads root path (.union ((before ++ rest).map .literal)))
    (hseen : ∀ value ∈ seen, value ∈ before) :
    Ensures (Gathered reserved root) (Reported reserved root)
      (checkLiterals (spelled path) seen rest) := by
  -- As with fields, the values seen are among those before.
  induction rest generalizing before seen with
  | nil => exact ensures_pure _
  | cons value rest ihrest =>
    rw [checkLiterals]
    split
    · next hrepeated =>
      refine ensures_refuse (reported_here hleads ⟨_, rfl, .inl ?_⟩)
      have htexts : ((before ++ value :: rest).map TypeExpr.literal).map literal? =
          before.map some ++ some value :: rest.map some := by
        rw [List.map_map, List.map_append]
        rfl
      rw [htexts]
      exact count_append_cons_ge (List.mem_map_of_mem (hseen value hrepeated))
    · have hnext : before ++ value :: rest = (before ++ [value]) ++ rest := by simp
      rw [hnext] at hleads
      apply ihrest hleads
      · intro n hn
        rcases List.mem_cons.1 hn with rfl | hn
        · simp
        · exact List.mem_append_left _ (hseen n hn)

/-- The variants of a union are checked in order: a missing or repeated tag is reported at the
union, and a variant at the step of its tag. -/
theorem ensures_checkVariants {variants before rest : List TypeExpr} {index : Nat}
    (ih : ∀ v ∈ variants, Reports reserved root v) (hleads : Leads root path (.union variants))
    (hrecords : ∀ v ∈ variants, v.fields?.isSome = true) (hsplit : variants = before ++ rest)
    (hindex : index = before.length) (hseen : ∀ tag ∈ seen, some tag ∈ before.map tag?) :
    Ensures (Gathered reserved root) (Reported reserved root)
      (checkVariants (opened path) (spelled path) seen index rest) := by
  -- The index of a variant is the number of those before it, and the tags seen are theirs.
  induction rest generalizing before seen index with
  | nil => exact ensures_pure _
  | cons v rest ihrest =>
    have hv : v ∈ variants := by simp [hsplit]
    rw [checkVariants]
    cases htag : tag? v with
    | none =>
      -- All variants are records here, so this is a record without a tag.
      obtain ⟨fields, rfl⟩ : ∃ fields, v = .record fields := by
        have hrecord := hrecords v hv
        cases v with
        | record fields => exact ⟨fields, rfl⟩
        | _ => cases hrecord
      exact ensures_refuse (reported_here hleads ⟨variants, fields, rfl, by simp [hsplit, hindex],
        htag⟩)
    | some tag =>
      dsimp only
      split
      · next hrepeated =>
        refine ensures_refuse (reported_here hleads ⟨variants, rfl, .inr ?_⟩)
        rw [hsplit, List.map_append, List.map_cons, htag]
        exact count_append_cons_ge (hseen tag hrepeated)
      · have hoptional : v.isOptional = true → ∀ name, Edge.variant tag ≠ .field name :=
          fun _ _ h => by cases h
        apply ((ih v hv).child hleads (.variant hv htag) rfl rfl hoptional).bind
        intro _
        have hnext : variants = (before ++ [v]) ++ rest := by simp [hsplit]
        apply ihrest hnext
        · simp [hindex]
        · intro n hn
          rcases List.mem_cons.1 hn with rfl | hn
          · simp [htag]
          · simp only [List.map_append, List.mem_append]
            exact .inl (hseen n hn)

theorem exists_of_literals?_eq_none {variants : List TypeExpr} (h : literals? variants = none) :
    ∃ v ∈ variants, v.literal? = none := by
  unfold literals? at h
  induction variants with
  | nil => cases h
  | cons v rest ih =>
    cases hv : v.literal? with
    | none => exact ⟨v, List.mem_cons_self, hv⟩
    | some value =>
      -- A literal in front does not spoil the list, so some later variant does.
      have hrest : rest.mapM (·.literal?) = none := by
        rw [List.mapM_cons, hv] at h
        cases hr : rest.mapM (·.literal?) with
        | none => rfl
        | some values => rw [hr] at h; cases h
      obtain ⟨w, hw, hnone⟩ := ih hrest
      exact ⟨w, List.mem_cons_of_mem v hw, hnone⟩

/-- A union reports violations of its own or of its variants, as an enumeration or as a choice by
tag. -/
theorem reports_union {variants : List TypeExpr} (ih : ∀ v ∈ variants, Reports reserved root v) :
    Reports reserved root (.union variants) := by
  intro path hleads _
  rw [check]
  cases hliterals : literals? variants with
  | some values =>
    obtain rfl := literals?_eq_some.1 hliterals
    rw [← List.nil_append values] at hleads
    exact ensures_checkLiterals hleads (List.forall_mem_nil _)
  | none =>
    dsimp only
    split
    · next hrecords =>
      rw [List.all_eq_true] at hrecords
      exact ensures_checkVariants ih hleads hrecords (List.nil_append variants).symm rfl
        (List.forall_mem_nil _)
    · next hmixed =>
      have hother : ∃ v ∈ variants, v.fields? = none := by simpa using hmixed
      have hliteral := exists_of_literals?_eq_none hliterals
      exact ensures_refuse (reported_here hleads ⟨variants, rfl, hliteral, hother⟩)

/-! ### Aliases -/

/-- An alias that is refused violates a condition on its name, or its definition conflicts with that
of another alias of the root, since only such aliases are known. -/
theorem reported_of_refused {s : Session} {f : TypeFault} (hs : Gathered reserved root s)
    (hleads : Leads root path (.alias name definition))
    (h : Refused s (spelled path) name definition f) : Reported reserved root f := by
  -- Three of the four faults are told at the definition, one edge further down.
  have hdefinition := hleads.step .definition
  have hroute : spelled (path ++ [.definition name]) = spelled path ++ [name] := spelled_concat _ _
  have hlast : (path ++ [Edge.definition name]).getLast? = some (.definition name) :=
    List.getLast?_concat
  cases h with
  | notTypeName h => exact reported_here hleads ⟨definition, rfl, h⟩
  | wrapperClash _ h => exact ⟨_, _, hdefinition, hroute, hlast, hs.reserved ▸ h⟩
  | jsonValueRedefined _ _ hjson h => exact ⟨_, _, hdefinition, hroute, hjson ▸ hlast, h⟩
  | conflictingAlias _ _ _ hknown h =>
    exact ⟨_, _, hdefinition, hroute, hlast, _, hs.known _ _ hknown, h⟩

theorem ensures_register (hleads : Leads root path (.alias name definition)) :
    Ensures (Gathered reserved root) (Reported reserved root)
      (register (spelled path) name definition) := by
  intro s hs
  constructor
  · intro new t h
    obtain ⟨-, hregistered⟩ := register_iff.1 h
    -- Only a new alias changes the session, and it is one of the type.
    cases hregistered with
    | json _ => exact hs
    | known _ _ => exact hs
    | new _ _ => exact hs.define (mem_aliases.2 hleads.mem_preorder)
  · intro f t h
    exact reported_of_refused hs hleads (refused_of_register h).1

/-- An alias reports what its registration does or, one step further on, what its definition does.
-/
theorem reports_alias (ih : Reports reserved root definition) :
    Reports reserved root (.alias name definition) := by
  intro path hleads _
  have hinside := ih _ (hleads.step .definition) fun _ => offField_concat nofun
  rw [opened_concat, spelled_concat] at hinside
  rw [check_alias]
  apply (ensures_register hleads).bind
  intro new
  split
  · -- Places do not matter here: opening and filling one leaves the aliases as they are.
    apply (ensures_modify fun s hs => ⟨hs.reserved, hs.known⟩).bind
    intro _
    apply Ensures.bind hinside
    exact fun _ => ensures_modify fun s hs => ⟨hs.reserved, hs.known⟩
  · exact ensures_pure _

/-- A check reports its faults: at a part of the type to which their route leads, and which is as
they say. -/
theorem reports (reserved : List String) (root e : TypeExpr) : Reports reserved root e := by
  induction e with
  | primitive kind => exact fun _ _ _ => ensures_pure _
  | literal value => exact fun _ _ _ => ensures_pure _
  | listOf e ih => exact fun _ hleads _ => ih.child hleads .element rfl rfl fun _ => nofun
  | dictOf e ih => exact fun _ hleads _ => ih.child hleads .value rfl rfl fun _ => nofun
  | optional e ih =>
    exact fun _ hleads hoff => ensures_refuse (reported_here hleads ⟨rfl, hoff rfl⟩)
  | record fields ih =>
    exact fun _ hleads _ => ensures_checkFields (fun f hf => (ih f hf).2) hleads
      (List.nil_append fields).symm (List.forall_mem_nil _)
  | union variants ih => exact reports_union ih
  | reference name =>
    intro path hleads _
    rw [check]
    split
    · exact ensures_pure _
    · next hopen => exact ensures_refuse (reported_here hleads ⟨rfl, hopen⟩)
  | «alias» name definition ih => exact reports_alias ih

/-- A fault of the check of a type is reported at a part of the type. -/
theorem reported_of_check {s : Session} {f : TypeFault}
    (h : check [] [] e (empty reserved) = .error f s) : Reported reserved e f :=
  (reports reserved e e [] .here (fun _ => offField_nil) _ (gathered_empty reserved e)).2 f s h

end Session

end BoundaryTypes
