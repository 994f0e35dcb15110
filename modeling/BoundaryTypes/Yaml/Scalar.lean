/-
  `Scalar` — the values of scalars whose kind is known.

  Each kind of scalar reads its text in its own way. Underscores in numbers do not
  count. A tag can ask for the value of a text that has not the form, so there are
  faults here that no text without tags shows.
-/
import BoundaryTypes.Text.LowerCase
import BoundaryTypes.Yaml.Form

namespace BoundaryTypes.Yaml

/-- The number that a text spells in a base. -/
def numberInBase (base : Nat) (digits : List Char) : Except Fault Int :=
  let s := String.ofList digits
  match Decimal.readIntIn? base s with
  | some n => .ok n
  | none => .error (.notInteger base s)

/-- The integer that a text stands for. -/
def integerOf (s : List Char) : Except Fault Int := do
  let bare := s.filter (· != '_')
  let body := unsigned bare
  let n ← match body with
    -- A tag can ask for the number of a text that has no digits at all.
    | [] => throw .noDigits
    | ['0'] => pure 0
    | '0' :: 'b' :: digits => numberInBase 2 digits
    | '0' :: 'x' :: digits => numberInBase 16 digits
    | '0' :: _ => numberInBase 8 body
    | _ =>
      if body.contains ':' then do
        let parts ← (Text.splitChars ':' body).mapM (numberInBase 10)
        pure (parts.foldl (fun n p => 60 * n + p) 0)
      else numberInBase 10 body
  pure (if bare.head? = some '-' then -n else n)

/-- The fraction that a text spells. -/
def decimalFraction (digits : List Char) : Except Fault Float :=
  let s := String.ofList digits
  match Decimal.readFloat? s with
  | some x => .ok x
  | none => .error (.notNumber s)

/-- Digits of base sixty, the last one first, added to a sum. Each is multiplied by its weight, an
exact integer until it becomes the nearest double. -/
def addSixtieths (weight : Nat) (sum : Float) : List Float → Except Fault Float
  | [] => .ok sum
  | digit :: more =>
    match Decimal.floatOfInt? weight with
    | some w => addSixtieths (60 * weight) (sum + digit * w) more
    | none => .error .integerBeyondFloats

/-- The fraction that a text stands for. -/
def fractionOf (s : List Char) : Except Fault Float := do
  let bare := Text.lowerChars (s.filter (· != '_'))
  if bare.isEmpty then throw .noDigits
  let body := unsigned bare
  let x ←
    if body == ['.', 'i', 'n', 'f'] then pure (1.0 / 0.0)
    else if body == ['.', 'n', 'a', 'n'] then pure (0.0 / 0.0)
    else if body.contains ':' then do
      let parts ← (Text.splitChars ':' body).mapM decimalFraction
      addSixtieths 1 0.0 parts.reverse
    else decimalFraction body
  pure (Decimal.signed (bare.head? = some '-') x)

/-- What a text stands for as a truth value. -/
def truthOf (s : List Char) : Except Fault Bool :=
  let word := String.ofList (Text.lowerChars s)
  match truthWords.find? fun p => p.1 = word with
  | some p => .ok p.2
  | none => .error (.notTruthValue word)

/-- Checks the point in time that a text stands for. -/
def checkTime (s : List Char) : Except Fault Unit :=
  match readTime? (withoutLastBreak s) with
  | some t => t.check
  | none => .error .notTime

/-! ### Bytes -/

/-- A digit of base sixty-four. -/
def isBase64 (c : Char) : Bool := c.isAlphanum || c == '+' || c == '/'

/-- Whether characters in base sixty-four, of which `quad` stand in an open group of four and
`pads` are the padding since, end in a closed group. -/
def closesGroups (quad pads : Nat) : List Char → Bool
  | [] => quad == 0
  | c :: rest =>
    if c == '=' then
      -- Padding closes a group that holds a byte; elsewhere it is skipped.
      if 2 ≤ quad then (4 ≤ quad + pads + 1 || closesGroups quad (pads + 1) rest)
      else closesGroups quad pads rest
    else if isBase64 c then closesGroups ((quad + 1) % 4) 0 rest
    else closesGroups quad pads rest

/-- Whether a text spells bytes in base sixty-four; other characters of ASCII are skipped. -/
def isBytes (s : List Char) : Bool := s.all (·.toNat < 128) && closesGroups 0 0 s

end BoundaryTypes.Yaml
