/-
  `Document` — the graph of nodes that the tokens of a YAML text describe.

  A node carries the tag that the text gives it; without one, a scalar is what its form
  says and a collection is a list or a mapping. An anchor names a node for later
  references, which stand for the same node; the name of a collection holds already
  inside of it. A text has at most one document.

  The reader takes the tokens one at a time, and every call of its functions that
  does not take one opens what a token announced. So twice the number of tokens bounds
  how deep the calls can nest. A fault of the notation counts when the reader comes to
  it, so whatever goes wrong in front of it counts first.
-/
import BoundaryTypes.Yaml.Form
import BoundaryTypes.Yaml.Graph
import BoundaryTypes.Yaml.Token

namespace BoundaryTypes.Yaml

/-- A document: its nodes, and which of them is the whole of it. -/
structure Document where
  graph : Graph
  root : NodeId

namespace Document

/-- What is left to read, what was named before, and the nodes so far. -/
structure Reading where
  tokens : List Token
  handles : List (String × String) := []
  anchors : List (String × NodeId) := []
  graph : Graph := {}

/-- A step of reading. -/
abbrev Reader := StateT Reading (Except Fault)

namespace Reader

/-- The next token; a fault ends the reading. -/
def peek : Reader Token := do
  match (← get).tokens.headD .streamEnd with
  | .fault f => throw f
  | t => pure t

/-- Takes the next token away. -/
def skip : Reader Unit := modify fun s => { s with tokens := s.tokens.drop 1 }

/-- Ends because the next token is in the wrong place. -/
def refuse {α : Type} : Reader α := do
  let _ ← peek
  throw .malformed

/-- Takes the next token away when it is the one given. -/
def takes (t : Token) : Reader Bool := do
  if (← peek) = t then
    skip
    pure true
  else pure false

/-- Takes the token away, which must come. -/
def expect (t : Token) : Reader Unit := do
  unless ← takes t do refuse

/-! ### Nodes, tags and names -/

/-- A new node. -/
def add (n : Node) : Reader NodeId :=
  modifyGet fun s => (s.graph.size, { s with graph := s.graph.add n })

/-- Names a node. -/
def bind (name : Option String) (i : NodeId) : Reader Unit :=
  match name with
  | none => pure ()
  | some name => modify fun s => { s with anchors := (name, i) :: s.anchors }

/-- The node with a name. -/
def named (name : String) : Reader NodeId := do
  match (← get).anchors.find? fun p => p.1 = name with
  | some p => pure p.2
  | none => throw .malformed

/-- The full tag that a handle and a suffix spell. -/
def fullTag (handle : Option String) (suffix : String) : Reader String := do
  match handle with
  | none => pure suffix
  | some h =>
    match (← get).handles.find? fun p => p.1 = h with
    | some p => pure (p.2 ++ suffix)
    | none => throw .malformed

/-- The anchor and the tag in front of a node, in either order. -/
def properties : Reader (Option String × Option String) := do
  match ← peek with
  | .anchor name =>
    skip
    match ← peek with
    | .tag handle suffix =>
      skip
      pure (some name, some (← fullTag handle suffix))
    | _ => pure (some name, none)
  | .tag handle suffix =>
    skip
    match ← peek with
    | .anchor name =>
      skip
      pure (some name, some (← fullTag handle suffix))
    | _ => pure (none, some (← fullTag handle suffix))
  | _ => pure (none, none)

/-- What a scalar is. Without tag what is not written plainly is text, but the tag `!` asks for the
form of any text. -/
def scalarTag (plain : Bool) (tag : Option String) (text : String) : Tag :=
  match tag with
  | none => if plain then Tag.ofForm text else .text
  | some "!" => Tag.ofForm text
  | some tag => Tag.ofText tag

/-- What a collection is; the tag `!` is none. -/
def collectionTag (standard : Tag) : Option String → Tag
  | none | some "!" => standard
  | some tag => Tag.ofText tag

/-- An anchor must be new; none is. -/
def checkAnchor : Option String → Reader Unit
  | none => pure ()
  | some name => do
    if (← get).anchors.any fun p => p.1 = name then throw .malformed

/-- A scalar with its anchor. -/
def addScalar (anchor : Option String) (tag : Tag) (text : String) : Reader NodeId := do
  checkAnchor anchor
  let i ← add ⟨tag, .scalar text⟩
  bind anchor i
  pure i

/-- A collection with its anchor, which holds already while its content is read. -/
def addCollection (anchor : Option String) (tag : Tag) (content : Reader Content) :
    Reader NodeId := do
  checkAnchor anchor
  let i ← add ⟨tag, .sequence []⟩
  bind anchor i
  let c ← content
  modify fun s => { s with graph := s.graph.update i fun n => { n with content := c } }
  pure i

/-! ### The content of nodes -/

/-- What ends an item of a block sequence. -/
def endsItem (t : Token) : Bool := t == .blockEntry || t == .blockEnd

/-- What ends a key or value of a block mapping. -/
def endsMember (t : Token) : Bool := t == .key || t == .value || t == .blockEnd

/-- What ends an item of a sequence that is no further right than the mapping around it. -/
def endsFlushItem (t : Token) : Bool := t == .blockEntry || endsMember t

/-- What ends a key in brackets or braces, where `close` ends the collection. -/
def endsFlowKey (close t : Token) : Bool := t == .value || t == .flowEntry || t == close

/-- What ends a value in brackets or braces, where `close` ends the collection. -/
def endsFlowValue (close t : Token) : Bool := t == .flowEntry || t == close

mutual

/-- A node. A block collection may begin only where `block` allows it, and a sequence that is no
further right than the mapping around it only as a key or value of that mapping. -/
def node (block flush : Bool) : Nat → Reader NodeId
  | 0 => refuse
  | fuel + 1 => do
    match ← peek with
    | .reference name =>
      skip
      named name
    | _ =>
      let (anchor, tag) ← properties
      let sequence := addCollection anchor (collectionTag .sequence tag)
      let mapping := addCollection anchor (collectionTag .mapping tag)
      let next ← peek
      match next with
      | .scalar text plain =>
        skip
        addScalar anchor (scalarTag plain tag text) text
      | .flowSequence =>
        skip
        sequence (flowItems true [] fuel)
      | .flowMapping =>
        skip
        mapping (flowEntries true [] fuel)
      | _ =>
        if flush && next = .blockEntry then sequence (flushItems [] fuel)
        else if block && next = .blockSequence then
          skip
          sequence (blockItems [] fuel)
        else if block && next = .blockMapping then
          skip
          mapping (blockEntries [] fuel)
        else if anchor.isSome || tag.isSome then
          -- An anchor or a tag with nothing behind it belongs to an empty scalar.
          addScalar anchor (scalarTag true tag "") ""
        else refuse

/-- A node, or an empty one before a token that ends it. -/
def nodeOrEmpty (block flush : Bool) (ends : Token → Bool) : Nat → Reader NodeId
  | 0 => refuse
  | fuel + 1 => do
    if ends (← peek) then add Node.empty else node block flush fuel

/-- The items of a block sequence. -/
def blockItems (items : List NodeId) : Nat → Reader Content
  | 0 => refuse
  | fuel + 1 => do
    if ← takes .blockEntry then
      let n ← nodeOrEmpty true false endsItem fuel
      blockItems (items ++ [n]) fuel
    else
      expect .blockEnd
      pure (.sequence items)

/-- The items of a sequence that is no further right than the mapping around it. -/
def flushItems (items : List NodeId) : Nat → Reader Content
  | 0 => refuse
  | fuel + 1 => do
    if ← takes .blockEntry then
      let n ← nodeOrEmpty true false endsFlushItem fuel
      flushItems (items ++ [n]) fuel
    else pure (.sequence items)

/-- The entries of a block mapping. -/
def blockEntries (entries : List Entry) : Nat → Reader Content
  | 0 => refuse
  | fuel + 1 => do
    if ← takes .key then
      let k ← nodeOrEmpty true true endsMember fuel
      let v ← blockValue fuel
      blockEntries (entries ++ [(k, v)]) fuel
    else
      expect .blockEnd
      pure (.mapping entries)

/-- The value of a block mapping's entry. -/
def blockValue : Nat → Reader NodeId
  | 0 => refuse
  | fuel + 1 => do
    if ← takes .value then nodeOrEmpty true true endsMember fuel else add Node.empty

/-- The items of a sequence in brackets; an item may be a single entry of a mapping. -/
def flowItems (first : Bool) (items : List NodeId) : Nat → Reader Content
  | 0 => refuse
  | fuel + 1 => do
    if ← takes .flowSequenceEnd then pure (.sequence items)
    else
      unless first do expect .flowEntry
      if ← takes .key then
        let k ← nodeOrEmpty false false (endsFlowKey .flowSequenceEnd) fuel
        let v ← flowValue .flowSequenceEnd fuel
        let n ← add ⟨.mapping, .mapping [(k, v)]⟩
        flowItems false (items ++ [n]) fuel
      -- A comma may be the last thing in the brackets.
      else if ← takes .flowSequenceEnd then pure (.sequence items)
      else
        let n ← node false false fuel
        flowItems false (items ++ [n]) fuel

/-- The entries of a mapping in braces. -/
def flowEntries (first : Bool) (entries : List Entry) : Nat → Reader Content
  | 0 => refuse
  | fuel + 1 => do
    if ← takes .flowMappingEnd then pure (.mapping entries)
    else
      unless first do expect .flowEntry
      if ← takes .key then
        let k ← nodeOrEmpty false false (endsFlowKey .flowMappingEnd) fuel
        let v ← flowValue .flowMappingEnd fuel
        flowEntries false (entries ++ [(k, v)]) fuel
      -- A comma may be the last thing in the braces.
      else if ← takes .flowMappingEnd then pure (.mapping entries)
      else
        let k ← node false false fuel
        let v ← add Node.empty
        flowEntries false (entries ++ [(k, v)]) fuel

/-- The value of an entry in brackets or braces. -/
def flowValue (close : Token) : Nat → Reader NodeId
  | 0 => refuse
  | fuel + 1 => do
    if ← takes .value then nodeOrEmpty false false (endsFlowValue close) fuel else add Node.empty

end

/-! ### Documents -/

/-- The handles that need no directive. -/
def standardHandles : List (String × String) := [("!", "!"), ("!!", standardTag "")]

/-- The directives in front of a document; `version` says that one gave the version. -/
def directives (version : Bool) : Nat → Reader Unit
  | 0 => pure ()
  | fuel + 1 => do
    match ← peek with
    | .directiveVersion major =>
      skip
      if version || major ≠ 1 then throw .malformed
      directives true fuel
    | .directiveHandle handle expansion =>
      skip
      if (← get).handles.any fun p => p.1 = handle then throw .malformed
      modify fun s => { s with handles := (handle, expansion) :: s.handles }
      directives version fuel
    | .directiveOther =>
      skip
      directives version fuel
    | _ => pure ()

/-- What ends an empty document. -/
def endsDocument : Token → Bool
  | .directiveVersion _ | .directiveHandle _ _ | .directiveOther => true
  | t => t == .documentStart || t == .documentEnd || t == .streamEnd

/-- The end of the text, which closing marks may precede. -/
def streamEnd : Nat → Reader Unit
  | 0 => refuse
  | fuel + 1 => do
    if ← takes .documentEnd then streamEnd fuel
    else
      unless ← takes .streamEnd do
        -- No second document may follow, but faults in front of it count first.
        modify fun s => { s with handles := [] }
        directives false fuel
        refuse

/-- The only document of a text; `none` when there is no document. -/
def root (fuel : Nat) : Reader (Option NodeId) := do
  match ← peek with
  | .streamEnd => pure none
  | .directiveVersion _ | .directiveHandle _ _ | .directiveOther | .documentStart =>
    directives false fuel
    -- Handles of directives come first, so they take precedence over the standard ones.
    modify fun s => { s with handles := s.handles ++ standardHandles }
    expect .documentStart
    let n ← nodeOrEmpty true false endsDocument fuel
    streamEnd fuel
    pure (some n)
  | _ =>
    modify fun s => { s with handles := standardHandles }
    let n ← node true false fuel
    streamEnd fuel
    pure (some n)

end Reader

/-- The document that a text holds, if it holds one. -/
def read (text : String) : Except Fault (Option Document) := do
  let ts := tokens text
  let (root?, s) ← (Reader.root (2 * ts.length + 4)).run { tokens := ts }
  pure (root?.map fun root => ⟨s.graph, root⟩)

end Document

end BoundaryTypes.Yaml
