/-
  `Token` — a YAML text cut into tokens.

  Nesting is made explicit: a block collection opens with a token of its own when
  its first entry stands further right than the collection around it, and ends when a
  line begins further left. A key on one line is seen as a key only at its colon, so
  each flow level keeps the place of what may turn out to be one, and the tokens of
  the key are put in there afterwards. A fault ends the tokens and is the last of
  them: a reader that stops earlier never meets it. What might still have become a key
  when the fault came is left out.
-/
import BoundaryTypes.Text.Utf8
import BoundaryTypes.Yaml.ScalarText

namespace BoundaryTypes.Yaml

/-- The units of a YAML text. -/
inductive Token where
  | directiveVersion (major : Nat)
  | directiveHandle (handle expansion : String)
  | directiveOther
  | documentStart
  | documentEnd
  | blockSequence
  | blockMapping
  | blockEnd
  | flowSequence
  | flowSequenceEnd
  | flowMapping
  | flowMappingEnd
  | blockEntry
  | flowEntry
  | key
  | value
  | reference (name : String)
  | anchor (name : String)
  | tag (handle : Option String) (suffix : String)
  | scalar (text : String) (plain : Bool)
  | streamEnd
  | fault (f : Fault)
deriving DecidableEq, Repr

/-- A place that may turn out to be a key. -/
structure PossibleKey where
  /-- How many tokens came before. -/
  number : Nat
  /-- Whether it must be a key: it begins an entry of the block around it. -/
  required : Bool
  index : Nat
  line : Nat
  column : Nat
deriving Repr

/-- What cutting a text into tokens knows on its way. -/
structure Scan where
  cursor : Cursor
  tokens : Array Token := #[]
  /-- Whether a key may begin here. -/
  allowKey : Bool := true
  /-- The columns of the open block collections, the innermost first. -/
  columns : List Nat := []
  /-- What may be a key, for each flow level, the innermost first; the last is the level outside of
  flow collections. -/
  keys : List (Option PossibleKey) := [none]
deriving Repr

namespace Scan

/-- Whether a flow collection is open. -/
def inFlow (s : Scan) : Bool := 1 < s.keys.length

/-- The possible key of the innermost level. -/
def possibleKey? (s : Scan) : Option PossibleKey := s.keys.head?.join

/-- The innermost level gets another possible key. -/
def withKey (s : Scan) (k : Option PossibleKey) : Scan := { s with keys := k :: s.keys.drop 1 }

/-- One more token, with the place after it. -/
def push (s : Scan) (t : Token) (after : Cursor) : Scan :=
  { s with tokens := s.tokens.push t, cursor := after }

/-- Sets whether a key may begin. -/
def allowing (s : Scan) (b : Bool) : Scan := { s with allowKey := b }

/-- The possible key of the innermost level is none; a required one must not be lost. -/
def dropKey (s : Scan) : Except Fault Scan :=
  if s.possibleKey?.any (·.required) then .error .malformed else .ok (s.withKey none)

/-- What begins here may be a key, where one is allowed. -/
def saveKey (s : Scan) : Except Fault Scan :=
  if s.allowKey then do
    -- Where a block has its entries, nothing but a key can begin.
    let required := !s.inFlow && s.columns.head? == some s.cursor.column
    let t ← s.dropKey
    pure (t.withKey (some
      ⟨s.tokens.size, required, s.cursor.index, s.cursor.line, s.cursor.column⟩))
  else pure s

/-- Whether a key that begins at the place would be on another line, or too long. -/
def isStale (s : Scan) (k : PossibleKey) : Bool :=
  -- A key without mark ends on its own line, after at most 1024 characters.
  k.line != s.cursor.line || 1024 < s.cursor.index - k.index

/-- Possible keys that a colon can no longer follow are given up. -/
def dropStaleKeys (s : Scan) : Except Fault Scan :=
  let stale (k : Option PossibleKey) := k.any s.isStale
  if s.keys.any fun k => stale k && k.any (·.required) then .error .malformed
  else .ok { s with keys := s.keys.map fun k => if stale k then none else k }

/-- Block collections further right than a column end. -/
def closeBlocks (s : Scan) (further : Nat → Bool) : Scan :=
  if s.inFlow then s
  else
    let closed := s.columns.takeWhile further
    { s with
      columns := s.columns.drop closed.length
      tokens := s.tokens ++ closed.map fun _ => Token.blockEnd }

/-- A block collection begins when the column is further right than the open ones: its token comes
after the first `number` tokens. -/
def openBlock (s : Scan) (column : Nat) (t : Token) (number : Nat) : Scan :=
  if s.columns.head?.all (· < column) then
    { s with
      columns := column :: s.columns
      tokens := (s.tokens.toList.take number ++ t :: s.tokens.toList.drop number).toArray }
  else s

/-- The place of the next token, after blanks, comments and line breaks. Tells whether a line
broke. -/
def toToken (c : Cursor) (broke : Bool) : Cursor × Bool :=
  let d := (c.dropWhile (· == ' ')).skipComment
  let (b, e) := d.lineBreak
  if b.isEmpty then (d, broke)
  else if _h : e.rest.length < c.rest.length then toToken e true
  else (d, broke)
termination_by c.rest.length

/-- Goes to the next token: a broken line allows a key, stale keys go, and blocks end. -/
def advance (s : Scan) : Except Fault Scan := do
  -- A byte order mark at the very beginning is no part of the text.
  let start := if s.cursor.index = 0 && s.cursor.peek 0 == '\ufeff' then s.cursor.next else s.cursor
  let (c, broke) := toToken start false
  let s := { s with cursor := c, allowKey := s.allowKey || (broke && !s.inFlow) }
  let s ← s.dropStaleKeys
  pure (s.closeBlocks (c.column < ·))

/-! ### Tokens of one or three characters -/

/-- A collection in brackets begins. -/
def openFlow (s : Scan) (t : Token) : Except Fault Scan := do
  let s ← s.saveKey
  pure { (s.push t s.cursor.next).allowing true with keys := none :: s.keys }

/-- A collection in brackets ends. -/
def closeFlow (s : Scan) (t : Token) : Except Fault Scan := do
  if !s.inFlow then throw .malformed
  let s ← s.dropKey
  pure { (s.push t s.cursor.next).allowing false with keys := s.keys.drop 1 }

/-- The mark of an entry that begins a block collection of its own kind. -/
def pushEntry (s : Scan) (opening entry : Token) : Except Fault Scan := do
  if !s.inFlow && !s.allowKey then throw .malformed
  let s := if s.inFlow then s else s.openBlock s.cursor.column opening s.tokens.size
  let s ← s.dropKey
  pure (s.push entry s.cursor.next)

/-- A colon: the value of the possible key, or of an empty or marked one. -/
def pushValue (s : Scan) : Except Fault Scan :=
  match s.possibleKey? with
  | some k =>
    -- The mark of the key goes in front of the tokens that turned out to be the key.
    let tokens := s.tokens.toList.take k.number ++ Token.key :: s.tokens.toList.drop k.number
    let s := { s.withKey none with tokens := tokens.toArray }
    let s := if s.inFlow then s else s.openBlock k.column .blockMapping k.number
    .ok ((s.push .value s.cursor.next).allowing false)
  | none => (s.pushEntry .blockMapping .value).map fun t => t.allowing (!s.inFlow)

/-- A token that stands outside of all blocks, and allows no key after it. -/
def pushOutside (s : Scan) (t : Token) (after : Cursor) : Except Fault Scan := do
  let s ← (s.closeBlocks fun _ => true).dropKey
  pure ((s.push t after).allowing false)

/-! ### Names, tags and directives -/

/-- A name of letters, digits, `-` and `_` that is not empty. -/
def readWord (c : Cursor) : Except Fault (String × Cursor) :=
  let (word, d) := c.takeWhile isWordChar
  if word.isEmpty then .error .malformed else .ok (String.ofList word, d)

/-- The name of an anchor, from after its indicator. -/
def readAnchorName (c : Cursor) : Except Fault (String × Cursor) := do
  let (word, d) ← readWord c
  if isBlankOrEnd (d.peek 0) || "?:,]\x7d%@\x60".contains (d.peek 0) then pure (word, d)
  else throw .malformed

/-- A character of a tag that stands for itself. -/
def isTagChar (c : Char) : Bool := c.isAlphanum || "-;/?:@&=+$,_.!~*'()[]".contains c

/-- The bytes of escapes in front, and the place after them. -/
def readEscapedBytes (c : Cursor) (sofar : List UInt8) : Except Fault (List UInt8 × Cursor) :=
  if c.peek 0 != '%' then .ok (sofar, c)
  else
    match Text.hexValue? (c.peek 1), Text.hexValue? (c.peek 2) with
    | some high, some low =>
      let d := c.skip 3
      if _h : d.rest.length < c.rest.length then
        readEscapedBytes d (sofar ++ [UInt8.ofNat (16 * high + low)])
      else .error .malformed
    | _, _ => .error .malformed
termination_by c.rest.length

/-- The text of a tag: characters and escaped UTF-8. -/
def readTagText (c : Cursor) (sofar : List Char) : Except Fault (List Char × Cursor) :=
  if c.peek 0 == '%' then
    match readEscapedBytes c [] with
    | .error f => .error f
    | .ok (bytes, d) =>
      match Text.Utf8.decode ⟨bytes.toArray⟩ with
      | .error _ => .error .malformed
      | .ok text =>
        if _h : d.rest.length < c.rest.length then readTagText d (sofar ++ text.toList)
        else .error .malformed
  else if isTagChar (c.peek 0) then
    let d := c.next
    if _h : d.rest.length < c.rest.length then readTagText d (sofar ++ [c.peek 0])
    else .error .malformed
  else .ok (sofar, c)
termination_by c.rest.length

/-- The text of a tag, which is not empty. -/
def readTagSuffix (c : Cursor) : Except Fault (String × Cursor) := do
  let (text, d) ← readTagText c []
  if text.isEmpty then throw .malformed
  pure (String.ofList text, d)

/-- A handle of tags: `!`, or a name between two of them. -/
def readHandle (c : Cursor) : Except Fault (String × Cursor) :=
  if c.peek 0 != '!' then .error .malformed
  else if c.peek 1 == ' ' then .ok ("!", c.next)
  else
    let (word, d) := c.next.takeWhile isWordChar
    if d.peek 0 == '!' then .ok (String.ofList ('!' :: word ++ ['!']), d.next)
    else .error .malformed

/-- A tag. -/
def readTag (c : Cursor) : Except Fault (Token × Cursor) := do
  let (t, d) ←
    if c.peek 1 == '<' then do
      let (suffix, d) ← readTagSuffix (c.skip 2)
      if d.peek 0 != '>' then throw .malformed
      pure (Token.tag none suffix, d.next)
    else if isBlankOrEnd (c.peek 1) then pure (Token.tag none "!", c.next)
    else do
      -- There is a handle when a second `!` comes before the next blank.
      let word := (c.next.rest.takeWhile fun ch => !isSpaceOrEnd ch)
      let (handle, d) ← if word.contains '!' then readHandle c else pure ("!", c.next)
      let (suffix, e) ← readTagSuffix d
      pure (Token.tag (some handle) suffix, e)
  if isSpaceOrEnd (d.peek 0) then pure (t, d) else throw .malformed

/-- A number of a version. -/
def readNumber (c : Cursor) : Except Fault (Nat × Cursor) :=
  let (digits, d) := c.takeWhile Char.isDigit
  if digits.isEmpty then .error .malformed
  else .ok (digits.foldl (fun n ch => 10 * n + (ch.toNat - 48)) 0, d)

/-- The version that a text asks for. -/
def readVersion (c : Cursor) : Except Fault (Token × Cursor) := do
  let (major, d) ← readNumber (c.dropWhile (· == ' '))
  if d.peek 0 != '.' then throw .malformed
  let (_, e) ← readNumber d.next
  if isSpaceOrEnd (e.peek 0) then pure (.directiveVersion major, e) else throw .malformed

/-- A handle of tags with what it stands for. -/
def readHandleDefinition (c : Cursor) : Except Fault (Token × Cursor) := do
  let (handle, d) ← readHandle (c.dropWhile (· == ' '))
  if d.peek 0 != ' ' then throw .malformed
  let (expansion, e) ← readTagSuffix (d.dropWhile (· == ' '))
  if isSpaceOrEnd (e.peek 0) then pure (.directiveHandle handle expansion, e) else throw .malformed

/-- A directive with its line. -/
def readDirective (c : Cursor) : Except Fault (Token × Cursor) := do
  let (name, d) ← readWord c.next
  if !isSpaceOrEnd (d.peek 0) then throw .malformed
  let (t, e) ←
    if name = "YAML" then readVersion d
    else if name = "TAG" then readHandleDefinition d
    else pure (Token.directiveOther, d.dropWhile fun ch => !isBreakOrEnd ch)
  pure (t, ← e.restOfLine)

/-! ### The next token -/

/-- Whether a plain scalar can begin with `c` before `next`. -/
def startsPlain (inFlow : Bool) (c next : Char) : Bool :=
  !(isBlankOrEnd c || "-?:,[]\x7b\x7d#&*!|>'\"%@\x60".contains c)
    || (!isBlankOrEnd next && (c == '-' || (!inFlow && (c == '?' || c == ':'))))

/-- A token that may be the beginning of a key. -/
def pushKeyable (s : Scan) (read : Cursor → Except Fault (Token × Cursor)) : Except Fault Scan := do
  let s ← s.saveKey
  let (t, after) ← read s.cursor
  pure ((s.push t after).allowing false)

/-- A scalar's token. -/
def scalarToken (plain : Bool) (r : Scanned) : Token × Cursor :=
  (.scalar (String.ofList r.text) plain, r.after)

/-- The least column of the lines that belong to the innermost block. -/
def leastColumn (s : Scan) : Nat := (s.columns.head?.map (· + 1)).getD 0

/-- A plain scalar; a line break that ends it allows a key. -/
def pushPlain (s : Scan) : Except Fault Scan := do
  let s ← s.saveKey
  let (r, broke) := scanPlain s.inFlow s.leastColumn s.cursor [] [] false
  let (t, after) := scalarToken true r
  pure ((s.push t after).allowing broke)

/-- A block scalar. -/
def pushBlock (s : Scan) (folded : Bool) : Except Fault Scan := do
  let s ← s.dropKey
  let (t, after) := scalarToken false (← scanBlock folded s.leastColumn s.cursor.next)
  pure ((s.push t after).allowing true)

/-- The token at the place, which is not the end. -/
def pushNext (s : Scan) : Except Fault Scan :=
  let c := s.cursor
  let ch := c.peek 0
  let blankAfter := isBlankOrEnd (c.peek 1)
  if ch == '%' && c.column = 0 then do
    let s ← (s.closeBlocks fun _ => true).dropKey
    let (t, after) ← readDirective c
    pure ((s.push t after).allowing false)
  else if c.column = 0 && c.atMarks '-' then s.pushOutside .documentStart (c.skip 3)
  else if c.column = 0 && c.atMarks '.' then s.pushOutside .documentEnd (c.skip 3)
  else if ch == '[' then s.openFlow .flowSequence
  else if ch == '\x7b' then s.openFlow .flowMapping
  else if ch == ']' then s.closeFlow .flowSequenceEnd
  else if ch == '\x7d' then s.closeFlow .flowMappingEnd
  else if ch == ',' then (s.dropKey).map fun s => (s.push .flowEntry c.next).allowing true
  -- Outside of brackets these marks need a blank behind them.
  else if ch == '-' && blankAfter then
    (s.pushEntry .blockSequence .blockEntry).map (·.allowing true)
  else if ch == '?' && (s.inFlow || blankAfter) then
    (s.pushEntry .blockMapping .key).map (·.allowing (!s.inFlow))
  else if ch == ':' && (s.inFlow || blankAfter) then s.pushValue
  else if ch == '*' then
    s.pushKeyable fun c => (readAnchorName c.next).map fun r => (.reference r.1, r.2)
  else if ch == '&' then
    s.pushKeyable fun c => (readAnchorName c.next).map fun r => (.anchor r.1, r.2)
  else if ch == '!' then s.pushKeyable readTag
  else if (ch == '|' || ch == '>') && !s.inFlow then s.pushBlock (ch == '>')
  else if ch == '\'' || ch == '"' then
    s.pushKeyable fun c => (scanQuoted (ch == '"') c.next []).map (scalarToken false)
  else if startsPlain s.inFlow ch (c.peek 1) then s.pushPlain
  else .error .malformed

/-- The tokens that are settled: no key can be put in front of them any more. -/
def settled (s : Scan) : List Token :=
  let numbers := s.keys.filterMap fun k => (k.filter fun k => !s.isStale k).map (·.number)
  match numbers.min? with
  | some n => s.tokens.toList.take n
  | none => s.tokens.toList

/-- The tokens from a place on. A fault comes behind the tokens that were settled before it. -/
def run (s : Scan) : List Token :=
  match s.advance with
  | .error f => s.settled ++ [.fault f]
  | .ok t =>
    if t.cursor.rest.isEmpty then
      match (t.closeBlocks fun _ => true).dropKey with
      | .error f => s.settled ++ [.fault f]
      | .ok u => u.tokens.toList ++ [.streamEnd]
    else
      match t.pushNext with
      | .error f => s.settled ++ [.fault f]
      | .ok u =>
        if _h : u.cursor.rest.length < s.cursor.rest.length then run u
        -- Every token takes a character, so this is only said for the recursion.
        else t.tokens.toList ++ [.fault .malformed]
termination_by s.cursor.rest.length

end Scan

/-- The tokens of a text. -/
def tokens (text : String) : List Token :=
  if text.toList.all isAllowed then Scan.run { cursor := { rest := text.toList } }
  else [.fault .malformed]

end BoundaryTypes.Yaml
