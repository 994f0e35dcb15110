/-
  `ScalarText` — the texts of scalars.

  A scalar is plain, quoted, or a block. Inside plain and quoted scalars one line
  break counts as a space, and of several breaks all but the first stay; a block keeps
  its breaks (`|`) or folds them in the same way (`>`), and says by `-` or `+` what
  happens to the breaks at its end.
-/
import BoundaryTypes.Text.Hex
import BoundaryTypes.Yaml.Cursor

namespace BoundaryTypes.Yaml

/-- A scalar's text and the place after it. -/
structure Scanned where
  text : List Char
  after : Cursor

/-- What a run of breaks stands for: `first` is the break, `more` are the ones after it. -/
def foldBreaks (first more : List Char) : List Char :=
  if first != ['\n'] then first ++ more else if more.isEmpty then [' '] else more

/-! ### Plain scalars -/

/-- Whether a plain scalar stops before `c`, with `next` after it. -/
def stopsPlain (flow : Bool) (c next : Char) : Bool :=
  isBlankOrEnd c
    || (c == ':' && (isBlankOrEnd next || (flow && ",[]\x7b\x7d".contains next)))
    || (flow && ",?[]\x7b\x7d".contains c)

/-- The characters of a plain scalar up to a blank. -/
def plainWord (flow : Bool) : List Char → List Char
  | [] => []
  | c :: rest =>
    if stopsPlain flow c (rest.head?.getD '\x00') then [] else c :: plainWord flow rest

/-- The breaks after a first one; `none` when a document mark comes. -/
def plainBreaks (c : Cursor) : Option (List Char) × Cursor :=
  if c.peek 0 == ' ' then
    let d := c.next
    if _h : d.rest.length < c.rest.length then plainBreaks d else (some [], d)
  else
    let (b, d) := c.lineBreak
    if _h : d.rest.length < c.rest.length then
      if d.atDocumentMark then (none, d)
      else
        let (more, e) := plainBreaks d
        (more.map (b ++ ·), e)
    else (some [], c)
termination_by c.rest.length

/-- What stands between two words of a plain scalar: its text, the place after it, and whether it
breaks the line. `none` when a document mark follows. -/
def plainGap (c : Cursor) : Option (List Char) × Cursor × Bool :=
  let (spaces, d) := c.takeWhile (· == ' ')
  if isBreak (d.peek 0) then
    let (b, e) := d.lineBreak
    if e.atDocumentMark then (none, e, true)
    else
      let (more, f) := plainBreaks e
      (more.map (foldBreaks b), f, true)
  else (some spaces, d, false)

/-- A plain scalar; `indent` is the least column of its further lines outside of flow collections.
Tells whether a line break ends it. -/
def scanPlain (flow : Bool) (indent : Nat) (c : Cursor) (sofar gap : List Char) (broke : Bool) :
    Scanned × Bool :=
  if c.peek 0 == '#' then (⟨sofar, c⟩, broke)
  else
    let word := plainWord flow c.rest
    let d := c.skip word.length
    if word.isEmpty then (⟨sofar, c⟩, broke)
    else
      let text := sofar ++ gap ++ word
      let (more, e, broke) := plainGap d
      let gap := more.getD []
      -- A comment ends the scalar, and so does a line that belongs to a block around it.
      if gap.isEmpty || e.peek 0 == '#' || (!flow && e.column < indent) then (⟨text, e⟩, broke)
      else if _h : e.rest.length < c.rest.length then scanPlain flow indent e text gap broke
      else (⟨text, e⟩, broke)
termination_by c.rest.length

/-! ### Quoted scalars -/

/-- The breaks inside a quoted scalar; a document mark must not come. -/
def quotedBreaks (c : Cursor) : Except Fault (List Char × Cursor) :=
  if c.atDocumentMark then .error .malformed
  else
    let d := c.dropWhile fun ch => ch == ' ' || ch == '\t'
    let (b, e) := d.lineBreak
    if b.isEmpty then .ok ([], d)
    else if _h : e.rest.length < c.rest.length then
      (quotedBreaks e).map fun r => (b ++ r.1, r.2)
    else .ok ([], d)
termination_by c.rest.length

/-- What stands between two words of a quoted scalar. -/
def quotedGap (c : Cursor) : Except Fault (List Char × Cursor) :=
  let (spaces, d) := c.takeWhile fun ch => ch == ' ' || ch == '\t'
  if d.rest.isEmpty then .error .malformed
  else if isBreak (d.peek 0) then
    let (b, e) := d.lineBreak
    (quotedBreaks e).map fun r => (foldBreaks b r.1, r.2)
  else .ok (spaces, d)

/-- The character of an escape of one letter. -/
def escapeChar? (c : Char) : Option Char :=
  ([('0', '\x00'), ('a', '\x07'), ('b', '\x08'), ('t', '\t'), ('\t', '\t'), ('n', '\n'),
    ('v', '\x0b'), ('f', '\x0c'), ('r', '\r'), ('e', '\x1b'), (' ', ' '), ('"', '"'),
    ('\\', '\\'), ('/', '/'), ('N', '\u0085'), ('_', '\u00a0'), ('L', '\u2028'),
    ('P', '\u2029')].find? fun p => p.1 == c).map (·.2)

/-- How many digits follow the letter of an escape by code. -/
def escapeWidth? (c : Char) : Option Nat :=
  ([('x', 2), ('u', 4), ('U', 8)].find? fun p => p.1 == c).map (·.2)

/-- The character with a code. -/
def codeChar (n : Nat) : Except Fault Char :=
  -- Codes are compared as signed numbers of 32 bits.
  if 0x7FFFFFFF < n then .error .codeTooLarge
  else if 0x10FFFF < n then .error .noCharacter
  -- Half of a surrogate pair stands for no character, so that no `String` can hold it.
  else if 0xD800 ≤ n ∧ n < 0xE000 then .ok '\ufffd'
  else .ok (Char.ofNat n)

/-- An escape of a double quoted scalar, from after its backslash. -/
def scanEscape (c : Cursor) : Except Fault (List Char × Cursor) :=
  let letter := c.peek 0
  match escapeChar? letter, escapeWidth? letter with
  | some ch, _ => .ok ([ch], c.next)
  | none, some width =>
    let digits := (c.rest.drop 1).take width
    match Text.hexNumber? digits with
    | some n =>
      if digits.length = width then (codeChar n).map fun ch => ([ch], c.skip (width + 1))
      else .error .malformed
    | none => .error .malformed
  | none, none =>
    if isBreak letter then quotedBreaks c.lineBreak.2 else .error .malformed

/-- A quoted scalar from after its opening quote. -/
def scanQuoted (double : Bool) (c : Cursor) (sofar : List Char) : Except Fault Scanned :=
  let ch := c.peek 0
  let step (text : List Char) (d : Cursor) : Except Fault (List Char × Cursor) :=
    .ok (sofar ++ text, d)
  let taken : Except Fault (List Char × Cursor) :=
    if c.rest.isEmpty || ch == ' ' || ch == '\t' || isBreak ch then
      (quotedGap c).map fun r => (sofar ++ r.1, r.2)
    -- A single quote that stands twice is one quote.
    else if !double && ch == '\'' then step ['\''] (c.skip 2)
    else if double && ch == '\\' then (scanEscape c.next).map fun r => (sofar ++ r.1, r.2)
    else step [ch] c.next
  if (double && ch == '"') || (!double && ch == '\'' && c.peek 1 != '\'') then .ok ⟨sofar, c.next⟩
  else
    match taken with
    | .error f => .error f
    | .ok (text, d) =>
      if _h : d.rest.length < c.rest.length then scanQuoted double d text else .error .malformed
termination_by c.rest.length

/-! ### Block scalars -/

/-- What becomes of the line breaks at the end of a block. -/
inductive Chomping where
  | strip
  | clip
  | keep
deriving DecidableEq, Repr

/-- The chomping that a character asks for. -/
def chomping? (c : Char) : Option Chomping :=
  if c == '+' then some .keep else if c == '-' then some .strip else none

/-- The indentation that a digit asks for. -/
def increment? (c : Char) : Option Nat := if c.isDigit then some (c.toNat - 48) else none

/-- The head of a block after its indicator: chomping and indentation in either order. -/
def scanBlockHead (c : Cursor) : Except Fault (Chomping × Option Nat × Cursor) :=
  let (chomping, increment, d) :=
    match chomping? (c.peek 0), increment? (c.peek 0) with
    | some ch, _ =>
      match increment? (c.peek 1) with
      | some n => (ch, some n, c.skip 2)
      | none => (ch, none, c.next)
    | none, some n =>
      match chomping? (c.peek 1) with
      | some ch => (ch, some n, c.skip 2)
      | none => (.clip, some n, c.next)
    | none, none => (.clip, none, c)
  -- An indentation of zero would leave the block no column of its own.
  if increment == some 0 || !isSpaceOrEnd (d.peek 0) then .error .malformed
  else d.restOfLine.map fun e => (chomping, increment, e)

/-- The empty lines in front of a block without a given indentation, and the greatest column that
their spaces reach. -/
def blockIndentation (c : Cursor) (greatest : Nat) : List Char × Nat × Cursor :=
  if c.peek 0 == ' ' then
    let d := c.next
    if _h : d.rest.length < c.rest.length then blockIndentation d (max greatest d.column)
    else ([], greatest, c)
  else
    let (b, d) := c.lineBreak
    if _h : d.rest.length < c.rest.length then
      let (more, g, e) := blockIndentation d greatest
      (b ++ more, g, e)
    else ([], greatest, c)
termination_by c.rest.length

/-- At most as many spaces as lead to the column. -/
def skipIndent (column : Nat) (c : Cursor) : Cursor :=
  c.skip (min (column - c.column) (c.rest.takeWhile (· == ' ')).length)

/-- The empty lines of a block with the indentation, and the place after the indentation of the
next line. -/
def blockBreaks (indent : Nat) (c : Cursor) : List Char × Cursor :=
  let d := skipIndent indent c
  let (b, e) := d.lineBreak
  if b.isEmpty then ([], d)
  else if _h : e.rest.length < c.rest.length then
    let (more, f) := blockBreaks indent e
    (b ++ more, f)
  else ([], d)
termination_by c.rest.length

/-- The lines of a block from a line's indentation on: the text without the last break, that break,
and the breaks after it. -/
def blockLines (folded : Bool) (indent : Nat) (c : Cursor) (breaks sofar : List Char) :
    List Char × List Char × List Char × Cursor :=
  if c.column != indent || c.rest.isEmpty then (sofar, [], breaks, c)
  else
    let (line, d) := c.takeWhile fun ch => !isBreakOrEnd ch
    let text := sofar ++ breaks ++ line
    let (b, e) := d.lineBreak
    let (more, f) := blockBreaks indent e
    if f.column != indent || f.rest.isEmpty then (text, b, more, f)
    else
      let indented (ch : Char) := ch == ' ' || ch == '\t'
      -- A break next to an indented line is never folded.
      let joint :=
        if folded && b == ['\n'] && !indented (c.peek 0) && !indented (f.peek 0) then
          (if more.isEmpty then [' '] else [])
        else b
      if _h : f.rest.length < c.rest.length then blockLines folded indent f more (text ++ joint)
      else (text, b, more, f)
termination_by c.rest.length

/-- A block from after its indicator; `parent` is the least column that its lines may have. -/
def scanBlock (folded : Bool) (parent : Nat) (c : Cursor) : Except Fault Scanned := do
  let (chomping, increment, d) ← scanBlockHead c
  let least := max parent 1
  let (breaks, indent, e) := match increment with
    | some n =>
      let indent := least + n - 1
      let (breaks, e) := blockBreaks indent d
      (breaks, indent, e)
    | none =>
      let (breaks, greatest, e) := blockIndentation d 0
      (breaks, max least greatest, e)
  let (text, last, more, f) := blockLines folded indent e breaks []
  pure ⟨match chomping with
    | .strip => text
    | .clip => text ++ last
    | .keep => text ++ last ++ more, f⟩

end BoundaryTypes.Yaml
