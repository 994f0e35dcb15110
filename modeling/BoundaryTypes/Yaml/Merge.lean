/-
  `Merge` — entries that a mapping takes from others.

  The value behind a key `<<` is a mapping, or a list of mappings, whose entries are put
  in front of the own entries of the mapping, so that the own ones count more. Those
  mappings take what they need from others first. Afterwards no entry has the key `<<`,
  and a key `=` is plain text. The nodes themselves are changed: whoever shares a mapping
  sees the entries that it took.

  A mapping can be asked for its entries while it still takes some, because it may hold
  itself. Every entry `<<` is taken out before its value is looked at, so their number
  bounds how deep this goes.
-/
import BoundaryTypes.Yaml.Cursor
import BoundaryTypes.Yaml.Graph

namespace BoundaryTypes.Yaml

namespace Graph

/-- The entries of a mapping; no entries for other nodes. -/
def entries (g : Graph) (i : NodeId) : List Entry := ((g.node i).entries?).getD []

/-- Whether an entry's key is `<<`. -/
def isMerge (g : Graph) (e : Entry) : Bool := g.tag e.1 == .merge

/-- A mapping gets other entries. -/
def setEntries (g : Graph) (i : NodeId) (entries : List Entry) : Graph :=
  g.update i fun n => { n with content := .mapping entries }

/-- Takes the first entry `<<` out of a mapping: what stands behind it, and the graph without it. -/
def takeMerge? (g : Graph) (i : NodeId) : Option (NodeId × Graph) :=
  let before := (g.entries i).takeWhile fun e => !g.isMerge e
  match (g.entries i).dropWhile fun e => !g.isMerge e with
  | [] => none
  | e :: rest => some (e.2, g.setEntries i (before ++ rest))

/-- A key `=` is plain text from now on. -/
def valueAsText (g : Graph) (i : NodeId) : Graph :=
  g.update i fun n => if n.tag = .value then { n with tag := .text } else n

/-- The entries that the value behind `<<` puts in, where `flatten` prepares a mapping. The first of
several mappings counts most, so its entries come last. -/
def givenEntries (flatten : Graph → NodeId → Except Fault Graph) (g : Graph) (source : NodeId) :
    Except Fault (List Entry × Graph) := do
  let one (r : List Entry × Graph) (i : NodeId) : Except Fault (List Entry × Graph) := do
    if (r.2.node i).entries?.isNone then throw .malformed
    let g ← flatten r.2 i
    pure (g.entries i ++ r.1, g)
  match (g.node source).content with
  | .mapping _ => one ([], g) source
  | .sequence items => items.foldlM one ([], g)
  | .scalar _ => throw .malformed

/-- `flatten` with a bound on its depth. -/
def flattenWithin : Nat → Graph → NodeId → Except Fault Graph
  | 0, g, _ => .ok g
  | depth + 1, g, i =>
    match g.takeMerge? i with
    | none => .ok ((g.entries i).foldl (fun g e => g.valueAsText e.1) g)
    | some (source, g) => do
      let (given, g) ← givenEntries (flattenWithin depth) g source
      let g ← flattenWithin depth g i
      pure (g.setEntries i (given ++ g.entries i))

/-- Puts in the entries that a mapping takes from others. -/
def flatten (g : Graph) (i : NodeId) : Except Fault Graph := flattenWithin (g.entryCount + 1) g i

end Graph

end BoundaryTypes.Yaml
