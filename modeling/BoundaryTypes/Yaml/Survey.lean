/-
  `Survey` — the values of all nodes of a document.

  Faults count in this order: those of the notation come first, and then those of nodes,
  level by level: what is wrong with the document's root, then what is wrong with its
  items in their order, then with theirs. So a collection is only noted when it is met,
  and opened when all collections that were met before it have been opened. Opening a
  mapping puts in the entries that it takes from others. A scalar has its value from the
  moment when it is met first.

  The value of the document is made from the nodes at the end. A document may hold
  itself, so only its upper levels are made.
-/
import BoundaryTypes.Json.Basic
import BoundaryTypes.Yaml.Document
import BoundaryTypes.Yaml.Merge
import BoundaryTypes.Yaml.Value

namespace BoundaryTypes.Yaml

/-- What is known about a document on the way to its value. -/
structure Survey where
  graph : Graph
  /-- The values of the scalars that were met. -/
  values : List (NodeId × Value) := []
  /-- The collections that were met. -/
  met : List NodeId := []
  /-- The collections that were met and not opened, the first one first. -/
  waiting : List NodeId := []

namespace Survey

/-- The value of a scalar that was met. -/
def value? (s : Survey) (i : NodeId) : Option Value :=
  (s.values.find? fun p => p.1 = i).map (·.2)

/-- The text that a node holds, its own or that of an entry for `=`. More steps than there are nodes
lead back to where they began. -/
def heldText (g : Graph) : Nat → NodeId → Except Fault String
  | 0, _ => .error .endlessText
  | steps + 1, i =>
    match (g.node i).content with
    | .scalar text => .ok text
    | .mapping entries =>
      match entries.find? fun e => g.tag e.1 = .value with
      | some e => heldText g steps e.2
      | none => .error .malformed
    | .sequence _ => .error .malformed

/-- The value of a node whose tag makes it a scalar. -/
def scalarValue (g : Graph) (i : NodeId) : Except Fault Value := do
  let tag := g.tag i
  if tag = .merge ∨ tag = .value ∨ tag = .unknown then throw .malformed
  let text ← heldText g g.size i
  -- The form of a point in time is looked for in the node itself.
  if tag = .timestamp ∧ (g.node i).entries?.isSome then throw .noTimeText
  Value.ofScalar tag text

/-- Meets a node: a scalar gets its value, and a collection is noted. -/
def meet (s : Survey) (i : NodeId) : Except Fault Survey := do
  if (s.graph.tag i).isCollection then
    if i ∈ s.met then pure s
    else pure { s with met := i :: s.met, waiting := s.waiting ++ [i] }
  else if (s.value? i).isSome then pure s
  else
    let v ← scalarValue s.graph i
    pure { s with values := (i, v) :: s.values }

/-- Meets an entry of a mapping, whose key must not be a collection. -/
def meetEntry (s : Survey) (e : Entry) : Except Fault Survey := do
  let s ← s.meet e.1
  if (s.graph.tag e.1).isCollection then throw .malformed
  s.meet e.2

/-- Meets an item that must be a single entry. -/
def meetPair (s : Survey) (i : NodeId) : Except Fault Survey :=
  match (s.graph.node i).entries? with
  | some [e] => do
    let s ← s.meet e.1
    s.meet e.2
  | _ => .error .malformed

/-- Opens a collection: its content must be of its kind. -/
def enter (s : Survey) (i : NodeId) : Except Fault Survey :=
  match s.graph.tag i, (s.graph.node i).content with
  | .sequence, .sequence items => items.foldlM meet s
  | .orderedMap, .sequence items | .pairs, .sequence items => items.foldlM meetPair s
  | .mapping, .mapping _ | .set, .mapping _ => do
    let g ← s.graph.flatten i
    (g.entries i).foldlM meetEntry { s with graph := g }
  | _, _ => .error .malformed

/-- Opens the collections that wait, and those that are met on the way; each is met once, so the
number of nodes bounds the steps. -/
def enterAll : Nat → Survey → Except Fault Survey
  | 0, s => .ok s
  | steps + 1, s =>
    match s.waiting with
    | [] => .ok s
    | i :: rest => do
      let s ← ({ s with waiting := rest } : Survey).enter i
      enterAll steps s

/-- Everything that a document holds, from its root on. -/
def ofDocument (d : Document) : Except Fault Survey := do
  let s ← ({ graph := d.graph } : Survey).meet d.root
  enterAll d.graph.size s

/-- The value of a node, with collections down to a depth. -/
def valueWithin (s : Survey) : Nat → NodeId → Value
  | 0, i => (s.value? i).getD (.other (s.graph.node i).isEmpty)
  | depth + 1, i =>
    match s.value? i, s.graph.tag i, (s.graph.node i).content with
    | some v, _, _ => v
    | none, .sequence, .sequence items => .list (items.map (valueWithin s depth))
    | none, .orderedMap, .sequence items | none, .pairs, .sequence items =>
      .list (items.map fun _ => .other false)
    | none, .mapping, .mapping entries =>
      let members := entries.filterMap fun e =>
        ((s.value? e.1).bind Value.text?).map fun key => (key, valueWithin s depth e.2)
      -- The first of two entries with one key gives the place, the last one the value.
      .mapping (Json.gatherMembers members)
    | none, _, _ => .other (s.graph.node i).isEmpty

end Survey

/-- The value that a text holds, with collections down to a depth; a text without a document holds
nothing. -/
def Value.read (depth : Nat) (text : String) : Except Fault Value := do
  match ← Document.read text with
  | none => pure .null
  | some d => pure ((← Survey.ofDocument d).valueWithin depth d.root)

end BoundaryTypes.Yaml
