/-
  `Reader` — JSON documents read from text.

  `readWhole` takes a whole text, `readFirst` the value at its beginning. A fault
  says what was expected and where: the reader works on the characters that remain,
  so a place is the number of characters not yet read. Each step returns a rest with
  a proof that it is shorter, which is why the recursion ends.
-/
import BoundaryTypes.Decimal.Numeral
import BoundaryTypes.Json.Basic
import BoundaryTypes.Json.Quoted

namespace BoundaryTypes.Json

/-- The blanks between tokens. -/
def isJsonBlank (c : Char) : Bool := c == ' ' || c == '\t' || c == '\n' || c == '\r'

/-- The text from its first character that is no blank. -/
def skipBlank (s : List Char) : List Char := s.dropWhile isJsonBlank

theorem length_skipBlank_le (s : List Char) : (skipBlank s).length ≤ s.length :=
  (List.dropWhile_sublist _).length_le

/-- The rest of a text after something was read from its front. -/
abbrev Rest (s : List Char) := { r : List Char // r.length < s.length }

/-- The words, read from the front, that stand for values. -/
def readWord? : List Char → Option (Json × Nat)
  | 'n' :: 'u' :: 'l' :: 'l' :: _ => some (.null, 4)
  | 't' :: 'r' :: 'u' :: 'e' :: _ => some (.bool true, 4)
  | 'f' :: 'a' :: 'l' :: 's' :: 'e' :: _ => some (.bool false, 5)
  | 'N' :: 'a' :: 'N' :: _ => some (.real (0.0 / 0.0), 3)
  | 'I' :: 'n' :: 'f' :: 'i' :: 'n' :: 'i' :: 't' :: 'y' :: _ => some (.real (1.0 / 0.0), 8)
  | '-' :: 'I' :: 'n' :: 'f' :: 'i' :: 'n' :: 'i' :: 't' :: 'y' :: _ =>
    some (.real (-(1.0 / 0.0)), 9)
  | _ => none

/-- The digits of the whole part of a number: one zero, or a run that begins with another digit. -/
def wholeDigits : List Char → List Char
  | [] => []
  | c :: rest =>
    if c = '0' then ['0'] else if c.isDigit then c :: rest.takeWhile Char.isDigit else []

/-- The digits after a point, if a point and a digit stand in front. -/
def fractionDigits : List Char → List Char
  | '.' :: rest => rest.takeWhile Char.isDigit
  | _ => []

/-- An exponent in front of a text: its value, and how many characters it takes. -/
def exponent? : List Char → Option (Int × Nat)
  | [] => none
  | c :: rest =>
    if c = 'e' ∨ c = 'E' then
      let (negative, more) := Decimal.takeSign rest
      let digits := more.takeWhile Char.isDigit
      if digits.isEmpty then none
      else
        let n : Int := Decimal.natOfDigits digits
        some (if negative then -n else n, 1 + (rest.length - more.length) + digits.length)
    else none

/-- A number at the front of a text, and how many characters it takes. With a fraction or an
exponent it is the nearest double, otherwise an exact integer. -/
def readNumber? (s : List Char) : Option (Json × Nat) :=
  let negative := s.head? == some '-'
  let unsigned := if negative then s.drop 1 else s
  let whole := wholeDigits unsigned
  if whole.isEmpty then none
  else
    let afterWhole := unsigned.drop whole.length
    let fraction := fractionDigits afterWhole
    let pointed := if fraction.isEmpty then 0 else fraction.length + 1
    let power := exponent? (afterWhole.drop pointed)
    let taken := (if negative then 1 else 0) + whole.length + pointed + (power.map (·.2)).getD 0
    -- A number with neither point nor exponent is exact.
    if fraction.isEmpty && power.isNone then
      let n : Int := Decimal.natOfDigits whole
      some (.int (if negative then -n else n), taken)
    else
      let x := Decimal.nearestFloat (Decimal.natOfDigits (whole ++ fraction))
        ((power.map (·.1)).getD 0 - fraction.length)
      some (.real (Decimal.signed negative x), taken)

/-- A value that is no text, list or object, from the front of a text. -/
def readPlain? (s : List Char) : Option (Json × Nat) := (readWord? s).orElse fun _ => readNumber? s

mutual

/-- The value at the front of a text. -/
def readValue (s : List Char) : Except Fault (Json × Rest s) :=
  match s with
  | [] => .error ⟨.value, 0⟩
  | '"' :: t =>
    match h : readQuoted (t.length + 1) t with
    | .error e => .error e
    | .ok (text, after) =>
      .ok (.string (String.ofList text), ⟨after, by
        have := readQuoted_length h; simp only [List.length_cons]; omega⟩)
  | '[' :: t =>
    match h : skipBlank t with
    | ']' :: after =>
      .ok (.array [], ⟨after, by
        have := length_skipBlank_le t; simp only [h, List.length_cons] at this ⊢; omega⟩)
    | _ =>
      match readElements (skipBlank t) with
      | .error e => .error e
      | .ok (elements, ⟨after, ha⟩) =>
        .ok (.array elements, ⟨after, by
          have := length_skipBlank_le t; simp only [List.length_cons]; omega⟩)
  | '\x7b' :: t =>
    match h : skipBlank t with
    | '\x7d' :: after =>
      .ok (.object [], ⟨after, by
        have := length_skipBlank_le t; simp only [h, List.length_cons] at this ⊢; omega⟩)
    | _ =>
      match readMembers (skipBlank t) with
      | .error e => .error e
      | .ok (members, ⟨after, ha⟩) =>
        .ok (.object (gatherMembers members), ⟨after, by
          have := length_skipBlank_le t; simp only [List.length_cons]; omega⟩)
  | c :: t =>
    match readPlain? (c :: t) with
    | none => .error ⟨.value, t.length + 1⟩
    | some (v, taken) =>
      .ok (v, ⟨t.drop (taken - 1), by simp only [List.length_drop, List.length_cons]; omega⟩)
termination_by 2 * s.length
decreasing_by
  all_goals
    have := length_skipBlank_le t
    simp only [List.length_cons]; omega

/-- The elements of a list from the first one on, up to the closing bracket. -/
def readElements (s : List Char) : Except Fault (List Json × Rest s) :=
  match readValue s with
  | .error e => .error e
  | .ok (v, ⟨after, ha⟩) =>
    match h : skipBlank after with
    | ']' :: rest =>
      .ok ([v], ⟨rest, by
        have := length_skipBlank_le after; simp only [h, List.length_cons] at this; omega⟩)
    | ',' :: t =>
      match readElements (skipBlank t) with
      | .error e => .error e
      | .ok (more, ⟨rest, hr⟩) =>
        .ok (v :: more, ⟨rest, by
          have := length_skipBlank_le after; have := length_skipBlank_le t
          simp only [h, List.length_cons] at *; omega⟩)
    | _ => .error ⟨.comma, (skipBlank after).length⟩
termination_by 2 * s.length + 1
decreasing_by
  · omega
  · have := length_skipBlank_le after; have := length_skipBlank_le t
    simp only [h, List.length_cons] at *; omega

/-- The members of an object from the first name on, up to the closing brace. -/
def readMembers (s : List Char) : Except Fault (List (String × Json) × Rest s) :=
  match s with
  | '"' :: t =>
    match hq : readQuoted (t.length + 1) t with
    | .error e => .error e
    | .ok (name, afterName) =>
      match hc : skipBlank afterName with
      | ':' :: u =>
        match readValue (skipBlank u) with
        | .error e => .error e
        | .ok (v, ⟨after, ha⟩) =>
          match h : skipBlank after with
          | '\x7d' :: rest =>
            .ok ([(String.ofList name, v)], ⟨rest, by
              have := readQuoted_length hq
              have := length_skipBlank_le afterName; have := length_skipBlank_le u
              have := length_skipBlank_le after
              simp only [h, hc, List.length_cons] at *; omega⟩)
          | ',' :: w =>
            match readMembers (skipBlank w) with
            | .error e => .error e
            | .ok (more, ⟨rest, hr⟩) =>
              .ok ((String.ofList name, v) :: more, ⟨rest, by
                have := readQuoted_length hq
                have := length_skipBlank_le afterName; have := length_skipBlank_le u
                have := length_skipBlank_le after; have := length_skipBlank_le w
                simp only [h, hc, List.length_cons] at *; omega⟩)
          | _ => .error ⟨.comma, (skipBlank after).length⟩
      | _ => .error ⟨.colon, (skipBlank afterName).length⟩
  | s => .error ⟨.memberName, s.length⟩
termination_by 2 * s.length + 1
decreasing_by
  · have := readQuoted_length hq
    have := length_skipBlank_le afterName; have := length_skipBlank_le u
    simp only [hc, List.length_cons] at *; omega
  · have := readQuoted_length hq
    have := length_skipBlank_le afterName; have := length_skipBlank_le u
    have := length_skipBlank_le after; have := length_skipBlank_le w
    simp only [h, hc, List.length_cons] at *; omega

end

/-- The value at the front of a text and what follows it. Blanks in front are no part of a value. -/
def readFirst (s : List Char) : Except Fault (Json × List Char) :=
  (readValue s).map fun (v, rest) => (v, rest.val)

/-- A whole text read as one value between blanks. -/
def readWhole (s : List Char) : Except Fault Json :=
  if s.head? = some '\ufeff' then .error ⟨.byteOrderMark, s.length⟩
  else
    match readFirst (skipBlank s) with
    | .error e => .error e
    | .ok (v, rest) =>
      if (skipBlank rest).isEmpty then .ok v else .error ⟨.extra, (skipBlank rest).length⟩

end BoundaryTypes.Json
