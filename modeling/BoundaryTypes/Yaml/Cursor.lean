/-
  `Cursor` — a place in a YAML text.

  A cursor knows what is left of the text, and the index, line and column of the next
  character. Past the end every look shows NUL, which no text may hold. The classes
  of characters on which scanning turns are defined here too.
-/

namespace BoundaryTypes.Yaml

/-- The parts of a point in time. -/
inductive TimePart where
  | year
  | month
  | day
  | hour
  | minute
  | second
deriving DecidableEq, Repr

/-- A fault of a YAML text. A malformed text has one kind of fault; the others are values that
cannot be what their form or their tag announces. -/
inductive Fault where
  | malformed
  | notInteger (base : Nat) (text : String)
  | notNumber (text : String)
  /-- The weight of a digit in base sixty is greater than any double. -/
  | integerBeyondFloats
  | notTruthValue (text : String)
  | noDigits
  /-- A text whose tag makes it a point in time is none. -/
  | notTime
  /-- A mapping whose tag makes it a point in time has no text of its own. -/
  | noTimeText
  | noCharacter
  /-- A code that is too great even to be compared with those of characters. -/
  | codeTooLarge
  /-- A mapping that stands for a text holds that text nowhere but in itself. -/
  | endlessText
  /-- A zone whose distance, in minutes, is a day or more. -/
  | zoneTooFar (minutes : Int)
  | outOfRange (part : TimePart) (value : Nat)
deriving DecidableEq, Repr

/-- Characters that a text may hold. -/
def isAllowed (c : Char) : Bool :=
  c == '\t' || c == '\n' || c == '\r' || (' ' ≤ c && c ≤ '~') || c == '\u0085'
    || ('\u00a0' ≤ c && c ≤ '\ufffd') || 0x10000 ≤ c.toNat

/-- A line break. -/
def isBreak (c : Char) : Bool :=
  c == '\n' || c == '\r' || c == '\u0085' || c == '\u2028' || c == '\u2029'

/-- A line break, or the end. -/
def isBreakOrEnd (c : Char) : Bool := isBreak c || c == '\x00'

/-- A space, a line break or the end. -/
def isSpaceOrEnd (c : Char) : Bool := isBreakOrEnd c || c == ' '

/-- A space, a tab, a line break or the end. -/
def isBlankOrEnd (c : Char) : Bool := isSpaceOrEnd c || c == '\t'

/-- A character of a name. -/
def isWordChar (c : Char) : Bool := c.isAlphanum || c == '-' || c == '_'

/-- A place in a text. -/
structure Cursor where
  rest : List Char
  index : Nat := 0
  line : Nat := 0
  column : Nat := 0
deriving Repr

namespace Cursor

/-- The character `n` places ahead. -/
def peek (c : Cursor) (n : Nat) : Char := c.rest[n]?.getD '\x00'

/-- One character further. A byte order mark takes no column. -/
def next (c : Cursor) : Cursor :=
  match c.rest with
  | [] => c
  | ch :: rest =>
    if isBreak ch && !(ch == '\r' && rest.head? == some '\n') then
      ⟨rest, c.index + 1, c.line + 1, 0⟩
    else ⟨rest, c.index + 1, c.line, if ch == '\ufeff' then c.column else c.column + 1⟩

/-- `n` characters further. -/
def skip (c : Cursor) : Nat → Cursor
  | 0 => c
  | n + 1 => c.next.skip n

/-- The characters in front that pass the test, and the place after them. -/
def takeWhile (c : Cursor) (test : Char → Bool) : List Char × Cursor :=
  let taken := c.rest.takeWhile test
  (taken, c.skip taken.length)

/-- The place after the characters in front that pass the test. -/
def dropWhile (c : Cursor) (test : Char → Bool) : Cursor := (c.takeWhile test).2

/-- A line break in front, as it counts in a text: the rarer breaks U+2028 and U+2029 stay, the
others are a line feed. Empty if there is none. -/
def lineBreak (c : Cursor) : List Char × Cursor :=
  match c.rest with
  | '\r' :: '\n' :: _ => (['\n'], c.skip 2)
  | ch :: _ =>
    if ch == '\u2028' || ch == '\u2029' then ([ch], c.next)
    else if isBreak ch then (['\n'], c.next)
    else ([], c)
  | [] => ([], c)

/-- Whether three equal marks of a document stand in front, with a blank after them. -/
def atMarks (c : Cursor) (mark : Char) : Bool :=
  c.rest.take 3 == [mark, mark, mark] && isBlankOrEnd (c.peek 3)

/-- Whether a document begins or ends in front. -/
def atDocumentMark (c : Cursor) : Bool := c.atMarks '-' || c.atMarks '.'

/-- The place after a comment, if one stands in front. -/
def skipComment (c : Cursor) : Cursor :=
  if c.peek 0 == '#' then c.dropWhile fun ch => !isBreakOrEnd ch else c

/-- The end of a line that may hold nothing but spaces and a comment. -/
def restOfLine (c : Cursor) : Except Fault Cursor :=
  let c := (c.dropWhile (· == ' ')).skipComment
  if isBreakOrEnd (c.peek 0) then .ok c.lineBreak.2 else .error .malformed

end Cursor

end BoundaryTypes.Yaml
