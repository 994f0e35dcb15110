/-
  `RoundTrip` — messages written and read again.

  A message is written from any descriptor, and read back for exactly those that are
  `Encodable`: the module has a name, the outbound messages form a union, and all
  types can be held by nodes. For every other descriptor the reader ends in a fault;
  it never takes a message for another descriptor. A descriptor that was read from
  some text, however spelled, is encodable, so a message settles after one reading.
-/
import BoundaryTypes.Descriptor
import BoundaryTypes.Proofs.Json.Document
import BoundaryTypes.Proofs.TypeExpr.Codec

namespace BoundaryTypes

open Outcome

/-! ### Nodes are documents without numbers -/

namespace TypeExpr

theorem textual_fieldNodes {fields : List (String × TypeExpr)}
    (h : ∀ f ∈ fields, f.2.toJson.Textual) : ∀ v ∈ fieldNodes fields, v.Textual := by
  induction fields with
  | nil => intro v hv; cases hv
  | cons f rest ih =>
    obtain ⟨name, e⟩ := f
    rw [fieldNodes, List.forall_mem_cons]
    -- Each field is an object of its name and the node of its type.
    refine ⟨.object (by simp) ?_, ih fun g hg => h g (List.mem_cons_of_mem _ hg)⟩
    simp only [List.forall_mem_cons]
    exact ⟨.string name, h (name, e) List.mem_cons_self, by simp⟩

theorem textual_nodes {variants : List TypeExpr} (h : ∀ v ∈ variants, v.toJson.Textual) :
    ∀ v ∈ nodes variants, v.Textual := by
  induction variants with
  | nil => intro v hv; cases hv
  | cons v rest ih =>
    rw [nodes, List.forall_mem_cons]
    exact ⟨h v List.mem_cons_self, ih fun w hw => h w (List.mem_cons_of_mem _ hw)⟩

/-- An object of a kind and one further member. -/
theorem textual_node {kind key : String} {v : Json} (hkey : "kind" ≠ key) (hv : v.Textual) :
    (Json.object [("kind", .string kind), (key, v)]).Textual := by
  refine .object (by simp [hkey]) ?_
  simp only [List.forall_mem_cons]
  exact ⟨.string kind, hv, by simp⟩

theorem textual_kind (kind : String) : (Json.object [("kind", .string kind)]).Textual := by
  refine .object (by simp) ?_
  simp only [List.forall_mem_cons]
  exact ⟨.string kind, by simp⟩

/-- The node of a type holds no number and names no member twice. -/
theorem textual_toJson (e : TypeExpr) : e.toJson.Textual := by
  induction e with
  | primitive k => exact textual_kind k.word
  | listOf e ih => exact textual_node (by decide) ih
  | dictOf e ih => exact textual_node (by decide) ih
  | literal s => exact textual_node (by decide) (.string s)
  | optional e ih => exact textual_node (by decide) ih
  | record fields ih =>
    exact textual_node (by decide) (.array (textual_fieldNodes fun f hf => (ih f hf).1))
  | union variants ih => exact textual_node (by decide) (.array (textual_nodes ih))
  | «alias» name e ih =>
    rw [toJson]
    split
    · exact textual_kind "json"
    · refine .object (by simp) ?_
      simp only [List.forall_mem_cons]
      exact ⟨.string "alias", .string name, ih, by simp⟩
  | reference name => exact textual_node (by decide) (.string name)

/-- The node of a type is an object. -/
theorem exists_toJson_eq (e : TypeExpr) : ∃ members, e.toJson = .object members := by
  cases e with
  | «alias» name e =>
    rw [toJson]
    split
    · exact ⟨_, rfl⟩
    · exact ⟨_, rfl⟩
  | _ => exact ⟨_, rfl⟩

end TypeExpr

namespace Descriptor

/-- The descriptors that a message can hold. -/
structure Encodable (d : Descriptor) : Prop where
  named : d.moduleName ≠ ""
  union : d.outbound.isUnion = true
  /-- Names are not empty anywhere, and all variants are records or literals. -/
  parts : ∀ e ∈ d.types, e.Everywhere TypeExpr.Encodable

theorem textual_toJson (d : Descriptor) : d.toJson.Textual := by
  refine .object (by simp) ?_
  simp only [List.forall_mem_cons]
  refine ⟨.string _, d.outbound.textual_toJson, ?_, by simp⟩
  cases d.flags with
  | none => exact .null
  | some flags => exact flags.textual_toJson

/-! ### The members of a message -/

/-- The members of the message of a descriptor. -/
def members (d : Descriptor) : List (String × Json) :=
  [("moduleName", .string d.moduleName), ("outbound", d.outbound.toJson),
    ("flags", (d.flags.map TypeExpr.toJson).getD .null)]

section Members

variable (d : Descriptor) (moduleName : String)

/-- The written module name is read, unless it is empty. -/
theorem moduleNameOf_members (fallback : Option String) (name : String) :
    moduleNameOf fallback d.members = .ok name ↔ name = d.moduleName ∧ d.moduleName ≠ "" := by
  show (if d.moduleName = "" then Except.error (TypeFault.mk .moduleNameMissing [])
    else Except.ok d.moduleName) = _ ↔ _
  split
  · next h => simp [h]
  · next h => simp [h, eq_comm]

/-- The written outbound type is read, if it is a union and encodable everywhere. -/
theorem outboundOf_members (outbound : TypeExpr) :
    outboundOf moduleName d.members = .ok outbound ↔
      outbound = d.outbound ∧ d.outbound.isUnion = true ∧
        d.outbound.Everywhere TypeExpr.Encodable := by
  -- The node of a type is never `null`, so the member counts.
  have hread : outboundOf moduleName d.members =
      (TypeExpr.ofJson [moduleName, "outbound"] d.outbound.toJson >>= fun e =>
        if e.isUnion then pure e else .error ⟨.outboundNotUnion, [moduleName, "outbound"]⟩) := by
    obtain ⟨ms, hms⟩ := d.outbound.exists_toJson_eq
    rw [outboundOf, members, hms]
    rfl
  rw [hread, bind_eq_ok]
  simp only [TypeExpr.ofJson_toJson_iff]
  constructor
  · rintro ⟨e, ⟨rfl, he⟩, h⟩
    split at h
    · next hunion => exact ⟨(Except.ok.inj h).symm, hunion, he⟩
    · cases h
  · rintro ⟨rfl, hunion, he⟩
    exact ⟨_, ⟨rfl, he⟩, by rw [if_pos hunion]; rfl⟩

/-- Written flags are read, if they are encodable everywhere. -/
theorem flagsOf_members (flags : Option TypeExpr) :
    flagsOf moduleName d.members = .ok flags ↔
      flags = d.flags ∧ ∀ e ∈ d.flags.toList, e.Everywhere TypeExpr.Encodable := by
  cases hflags : d.flags with
  | none =>
    have hread : flagsOf moduleName d.members = .ok none := by
      rw [flagsOf, members, hflags]
      rfl
    rw [hread, Except.ok.injEq, eq_comm]
    simp
  | some e =>
    have hread : flagsOf moduleName d.members =
        (TypeExpr.ofJson [moduleName, "flags"] e.toJson).map some := by
      obtain ⟨ms, hms⟩ := e.exists_toJson_eq
      rw [flagsOf, members, hflags, Option.map_some, Option.getD_some, hms]
      rfl
    rw [hread, map_eq_ok_iff (TypeExpr.ofJson_toJson_iff e _)]
    simp

end Members

/-! ### The round trip -/

/-- What is read from a written message is the descriptor, and something is read exactly when the
descriptor is encodable. -/
theorem read_write_iff (d : Descriptor) (indent : Option Nat) (fallback : Option String)
    (result : Descriptor) :
    read fallback (d.write indent) = .ok result ↔ result = d ∧ d.Encodable := by
  -- The text is read as the node again, so only its members matter.
  have hread : read fallback (d.write indent) = (do
      let moduleName ← moduleNameOf fallback d.members
      let outbound ← outboundOf moduleName d.members
      let flags ← flagsOf moduleName d.members
      pure ⟨moduleName, outbound, flags⟩) := by
    rw [read, write, Json.read_write indent d.textual_toJson]
    rfl
  rw [hread, bind_eq_ok]
  simp only [bind_eq_ok, moduleNameOf_members, outboundOf_members, flagsOf_members]
  constructor
  · rintro ⟨_, ⟨rfl, hname⟩, _, ⟨rfl, hunion, hout⟩, _, ⟨rfl, hflags⟩, h⟩
    exact ⟨(Except.ok.inj h).symm, hname, hunion, List.forall_mem_cons.2 ⟨hout, hflags⟩⟩
  · rintro ⟨rfl, h⟩
    obtain ⟨hout, hflags⟩ := List.forall_mem_cons.1 h.parts
    exact ⟨_, ⟨rfl, h.named⟩, _, ⟨rfl, h.union, hout⟩, _, ⟨rfl, hflags⟩, rfl⟩

/-- A module name that was read is not empty. -/
theorem ne_empty_of_moduleNameOf {fallback : Option String} {members : List (String × Json)}
    {name : String} (h : moduleNameOf fallback members = .ok name) : name ≠ "" := by
  unfold moduleNameOf at h
  dsimp only at h
  split at h
  · split at h
    · cases h
    · next hne => cases h; exact hne
  · cases h

/-- An outbound type that was read is a union, and encodable. -/
theorem encodable_of_outboundOf {moduleName : String} {members : List (String × Json)}
    {outbound : TypeExpr} (h : outboundOf moduleName members = .ok outbound) :
    outbound.isUnion = true ∧ outbound.Everywhere TypeExpr.Encodable := by
  unfold outboundOf at h
  dsimp only at h
  split at h
  · -- Without the member, and with `null`, there are no messages: a union of no variants.
    cases h; exact ⟨rfl, TypeExpr.everywhere_union.2 ⟨by simp [TypeExpr.Encodable], by simp⟩⟩
  · cases h; exact ⟨rfl, TypeExpr.everywhere_union.2 ⟨by simp [TypeExpr.Encodable], by simp⟩⟩
  · next node _ _ =>
    obtain ⟨e, he, h⟩ := bind_eq_ok.1 h
    split at h
    · next hunion =>
      cases h
      exact ⟨hunion, TypeExpr.everywhere_encodable_of_ofJson node _ _ he⟩
    · cases h

theorem encodable_of_flagsOf {moduleName : String} {members : List (String × Json)}
    {flags : Option TypeExpr} (h : flagsOf moduleName members = .ok flags) :
    ∀ e ∈ flags.toList, e.Everywhere TypeExpr.Encodable := by
  unfold flagsOf at h
  split at h
  · -- Without the member, and with `null`, the module takes no flags.
    cases h; simp
  · cases h; simp
  · next node _ _ =>
    obtain ⟨flagsType, hread, rfl⟩ := map_eq_ok.1 h
    rw [Option.toList_some, List.forall_mem_singleton]
    exact TypeExpr.everywhere_encodable_of_ofJson node _ flagsType hread

/-- A descriptor that was read is encodable, however its message is spelled. -/
theorem encodable_of_read {fallback : Option String} {text : String} {d : Descriptor}
    (h : read fallback text = .ok d) : d.Encodable := by
  unfold read at h
  split at h
  · cases h
  · unfold ofJson at h
    split at h
    · obtain ⟨moduleName, hname, h⟩ := bind_eq_ok.1 h
      obtain ⟨outbound, hout, h⟩ := bind_eq_ok.1 h
      obtain ⟨flags, hflags, h⟩ := bind_eq_ok.1 h
      cases h
      obtain ⟨hunion, hparts⟩ := encodable_of_outboundOf hout
      exact ⟨ne_empty_of_moduleNameOf hname, hunion,
        List.forall_mem_cons.2 ⟨hparts, encodable_of_flagsOf hflags⟩⟩
    · cases h

/-- **The exact domain of the round trip.** A written message is read as the descriptor it was
written from if and only if the descriptor is encodable, and is refused otherwise. Whatever text a
descriptor was read from, it is read again from its own message, which is then written the same. -/
theorem round_trip_exact (indent : Option Nat) (fallback : Option String) :
    (∀ d : Descriptor,
      (read fallback (d.write indent) = .ok d ↔ d.Encodable) ∧
      (¬ d.Encodable → ∃ fault, read fallback (d.write indent) = .error fault)) ∧
    ∀ (text : String) (given : Option String) (d : Descriptor), read given text = .ok d →
      read fallback (d.write indent) = .ok d ∧
      (read fallback (d.write indent)).map (write indent) = .ok (d.write indent) := by
  have hdomain : ∀ d : Descriptor, read fallback (d.write indent) = .ok d ↔ d.Encodable := by
    intro d
    rw [read_write_iff]
    exact and_iff_right rfl
  refine ⟨fun d => ⟨hdomain d, fun hd => ?_⟩, fun text given d h => ?_⟩
  · cases hread : read fallback (d.write indent) with
    | error fault => exact ⟨fault, rfl⟩
    | ok result => exact absurd ((read_write_iff d indent fallback result).1 hread).2 hd
  · -- What was read is encodable, so its own message is in the domain.
    have hd := (hdomain d).2 (encodable_of_read h)
    rw [hd]
    exact ⟨rfl, rfl⟩

/-- A module that sends one of two texts and takes arbitrary JSON. -/
def switch : Descriptor := ⟨"Main", .enumeration ["on", "off"], some .jsonValue⟩

theorem round_trip_exact_switch :
    switch.Encodable ∧
      (read none (switch.write (some 2))).map (write (some 2)) = .ok (switch.write (some 2)) := by
  have hparts : ∀ e ∈ switch.types, e.Everywhere TypeExpr.Encodable := by
    refine List.forall_mem_cons.2 ⟨?_, List.forall_mem_singleton.2 ?_⟩
    · refine TypeExpr.everywhere_union.2 ⟨List.forall_mem_map.2 fun _ _ => rfl, ?_⟩
      exact List.forall_mem_map.2 fun _ _ => TypeExpr.everywhere_literal.2 trivial
    · exact TypeExpr.everywhere_encodable_jsonValue
  have h : switch.Encodable := ⟨by decide +kernel, rfl, hparts⟩
  have hread : read none (switch.write (some 2)) = .ok switch :=
    ((round_trip_exact (some 2) none).1 switch).1.2 h
  exact ⟨h, ((round_trip_exact (some 2) none).2 _ none switch hread).2⟩

end Descriptor

end BoundaryTypes
