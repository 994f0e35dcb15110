/-
  `Quoted` — string literals: a text between double quotes, and the text read back.

  A literal escapes the double quote, the backslash and the characters below
  U+0020, and nothing else. Reading takes the characters up to the closing quote;
  it accepts the further escapes of JSON, `\/` and `\uXXXX`, the latter also in
  pairs for the characters beyond U+FFFF. The declaration files of this library use
  the same literals for tags, enumerated values and record keys.
-/
import BoundaryTypes.Text.Hex

namespace BoundaryTypes.Json

open Text

/-- The letter of a two-character escape. -/
def escapeLetter? (c : Char) : Option Char :=
  if c = '"' then some '"'
  else if c = '\\' then some '\\'
  else if c = '\n' then some 'n'
  else if c = '\r' then some 'r'
  else if c = '\t' then some 't'
  else if c = '\x0c' then some 'f'
  else if c = '\x08' then some 'b'
  else none

/-- One character inside a literal. -/
def quoteChar (c : Char) : List Char :=
  match escapeLetter? c with
  | some l => ['\\', l]
  | none => if c.toNat < 0x20 then '\\' :: 'u' :: hexPadded 4 c.toNat else [c]

/-- The literal of a text. -/
def quoteChars (s : List Char) : List Char := '"' :: (s.flatMap quoteChar ++ ['"'])

/-- `quoteChars` on strings. -/
def quote (s : String) : String := String.ofList (quoteChars s.toList)

/-- Why a literal or a document is no JSON. -/
inductive Reason where
  | value
  | memberName
  | colon
  | comma
  | unterminated
  | control
  | escape
  | unicodeEscape
  | extra
  | byteOrderMark
deriving DecidableEq, Repr

/-- A fault of a text: its reason, and how many characters remain where it lies. -/
structure Fault where
  reason : Reason
  remaining : Nat
deriving DecidableEq, Repr

/-- The character of a two-character escape. -/
def unescapeLetter? (c : Char) : Option Char :=
  if c = '"' then some '"'
  else if c = '\\' then some '\\'
  else if c = '/' then some '/'
  else if c = 'b' then some '\x08'
  else if c = 'f' then some '\x0c'
  else if c = 'n' then some '\n'
  else if c = 'r' then some '\r'
  else if c = 't' then some '\t'
  else none

/-- The character of a surrogate pair, when the two units are one. -/
def joinSurrogates? (high low : Nat) : Option Char :=
  if 0xD800 ≤ high ∧ high < 0xDC00 ∧ 0xDC00 ≤ low ∧ low < 0xE000 then
    some (Char.ofNat (0x10000 + (high - 0xD800) * 0x400 + (low - 0xDC00)))
  else none

/-- Whether a 16-bit unit is half of a surrogate pair. -/
def isHalf (n : Nat) : Bool := 0xD800 ≤ n && n < 0xE000

/-- The character of one 16-bit unit. Half a pair stands for no character, so no `String` can hold
it: it reads as U+FFFD, and what depends on the text of a document is said of documents without
halves (`isWhole`). -/
def unitChar (n : Nat) : Char := if isHalf n then '\ufffd' else Char.ofNat n

/-- What follows a backslash and `u`: the character and how many of the characters it takes. The
literal must go on after its last digit. -/
def unicodeEscape? : List Char → Option (Char × Nat)
  | a :: b :: c :: d :: rest =>
    match hexNumber? [a, b, c, d], rest with
    | none, _ => none
    | _, [] => none
    -- A second unit may join the first to a pair, if the text goes on behind it.
    | some high, '\\' :: 'u' :: e :: f :: g :: h :: _ :: _ =>
      match (hexNumber? [e, f, g, h]).bind (joinSurrogates? high) with
      | some joined => some (joined, 10)
      | none => some (unitChar high, 4)
    | some unit, _ => some (unitChar unit, 4)
  | _ => none

/-- Whether what follows a backslash and `u` is half of a pair alone. -/
def isLoneHalf (s : List Char) : Bool :=
  match unicodeEscape? s with
  | some (_, 4) => (hexNumber? (s.take 4)).any isHalf
  | _ => false

/-- Whether no escape in a text stands for half of a pair alone; so many characters in front belong
to an escape that was seen before. -/
def isWholeBehind (taken : Nat) : List Char → Bool
  | [] => true
  | c :: rest =>
    match taken with
    | taken + 1 => isWholeBehind taken rest
    | 0 =>
      if c ≠ '\\' then isWholeBehind 0 rest
      else
        match rest with
        | 'u' :: digits =>
          !isLoneHalf digits && isWholeBehind (((unicodeEscape? digits).map (·.2)).getD 0 + 1) rest
        | _ => isWholeBehind 1 rest

/-- Whether no escape in a text stands for half of a pair alone. -/
def isWhole (s : String) : Bool := isWholeBehind 0 s.toList

example : isWhole "\"\\ud83d\\ude00 \\\\ud83d\"" = true ∧ isWhole "\"\\ud83d\"" = false := by decide

/-- What follows a backslash: the character it stands for, and what follows it. `opening` is the
number of characters that remained at the opening quote of the literal. -/
def readEscape (opening : Nat) : List Char → Except Fault (Char × List Char)
  | [] => .error ⟨.unterminated, opening⟩
  | l :: rest =>
    if l = 'u' then
      match unicodeEscape? rest with
      | none => .error ⟨.unicodeEscape, rest.length + 1⟩
      | some (c, taken) => .ok (c, rest.drop taken)
    else
      match unescapeLetter? l with
      | none => .error ⟨.escape, rest.length + 2⟩
      | some c => .ok (c, rest)

theorem readEscape_length {opening : Nat} {s after : List Char} {c : Char}
    (h : readEscape opening s = .ok (c, after)) : after.length < s.length := by
  cases s with
  | nil => simp [readEscape] at h
  | cons l rest =>
    simp only [readEscape] at h
    repeat' split at h
    all_goals simp only [Except.ok.injEq, Prod.mk.injEq, reduceCtorEq] at h
    all_goals simp only [← h.2, List.length_drop, List.length_cons]; omega

/-- A literal read from after its opening quote: the text, and what follows the closing quote. -/
def readQuoted (opening : Nat) : List Char → Except Fault (List Char × List Char)
  | [] => .error ⟨.unterminated, opening⟩
  | c :: rest =>
    if c = '"' then .ok ([], rest)
    else if c = '\\' then
      match _h : readEscape opening rest with
      | .error e => .error e
      | .ok (d, after) => (readQuoted opening after).map fun p => (d :: p.1, p.2)
    else if c.toNat < 0x20 then .error ⟨.control, rest.length + 1⟩
    else (readQuoted opening rest).map fun p => (c :: p.1, p.2)
termination_by s => s.length
decreasing_by
  · have := readEscape_length _h
    simp only [List.length_cons]; omega
  · simp

/-- What follows a literal is shorter than what followed its opening quote. -/
theorem readQuoted_length {opening : Nat} {s text after : List Char}
    (h : readQuoted opening s = .ok (text, after)) : after.length < s.length := by
  fun_induction readQuoted opening s generalizing text with
  | case1 => simp at h
  | case2 rest => simp only [Except.ok.injEq, Prod.mk.injEq] at h; simp [← h.2]
  | case3 => simp at h
  | case4 rest d more hd _ ih =>
    have := readEscape_length hd
    cases hq : readQuoted opening more with
    | error e => simp [hq, Except.map] at h
    | ok p =>
      simp only [hq, Except.map, Except.ok.injEq, Prod.mk.injEq] at h
      have := @ih p.1 (by rw [hq, ← h.2])
      simp only [List.length_cons]; omega
  | case5 => simp at h
  | case6 c rest _ _ _ ih =>
    cases hq : readQuoted opening rest with
    | error e => simp [hq, Except.map] at h
    | ok p =>
      simp only [hq, Except.map, Except.ok.injEq, Prod.mk.injEq] at h
      have := @ih p.1 (by rw [hq, ← h.2])
      simp only [List.length_cons]; omega

/-- An escape is undone by its letter. -/
theorem unescapeLetter?_of_escapeLetter? {c l : Char} (h : escapeLetter? c = some l) :
    unescapeLetter? l = some c := by
  unfold escapeLetter? at h
  repeat' split at h
  all_goals first | (injection h with h; subst h; subst c; decide) | cases h

end BoundaryTypes.Json
