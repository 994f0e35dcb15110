/-
  `Graph` — the nodes of a YAML document.

  A node is a scalar, a sequence or a mapping, and has a tag. Nodes are numbered, and
  collections name what they hold by number, because several places of a document can
  stand for one node, even a place inside of that node. A change of a node is seen
  wherever it is named.
-/
import BoundaryTypes.Yaml.Tag

namespace BoundaryTypes.Yaml

/-- The number of a node. -/
abbrev NodeId := Nat

/-- An entry of a mapping: a key and its value. -/
abbrev Entry := NodeId × NodeId

/-- What a node is made of. -/
inductive Content where
  | scalar (text : String)
  | sequence (items : List NodeId)
  | mapping (entries : List Entry)
deriving DecidableEq, Repr

/-- A part of a document. -/
structure Node where
  tag : Tag
  content : Content
deriving DecidableEq, Repr

/-- The numbered nodes of a document. -/
structure Graph where
  nodes : Array Node := #[]

namespace Node

/-- A scalar without text, tag and anchor. -/
def empty : Node := ⟨.null, .scalar ""⟩

/-- The entries of a mapping; `none` for other nodes. -/
def entries? (n : Node) : Option (List Entry) :=
  match n.content with
  | .mapping entries => some entries
  | _ => none

/-- Whether a node holds nothing. -/
def isEmpty (n : Node) : Bool :=
  match n.content with
  | .scalar text => text.isEmpty
  | .sequence items => items.isEmpty
  | .mapping entries => entries.isEmpty

end Node

namespace Graph

/-- The node with a number. -/
def node (g : Graph) (i : NodeId) : Node := g.nodes[i]?.getD Node.empty

/-- The tag of a node. -/
def tag (g : Graph) (i : NodeId) : Tag := (g.node i).tag

/-- One more node, with the next number. -/
def add (g : Graph) (n : Node) : Graph := ⟨g.nodes.push n⟩

/-- Changes a node. -/
def update (g : Graph) (i : NodeId) (f : Node → Node) : Graph := ⟨g.nodes.modify i f⟩

/-- How many nodes there are. -/
def size (g : Graph) : Nat := g.nodes.size

/-- The entries of all mappings together. -/
def entryCount (g : Graph) : Nat :=
  g.nodes.foldl (fun count n => count + (n.entries?.getD []).length) 0

end Graph

end BoundaryTypes.Yaml
