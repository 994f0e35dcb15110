/-
  `Form` — what the form of a scalar announces.

  A scalar without tag is nothing, a truth value, an integer, a fraction, a point in
  time or text, according to its form alone. Integers have binary, octal, decimal and
  hexadecimal forms, and a form in base sixty with colons, which fractions have too;
  underscores may stand between digits. One line break at the end of a text does not
  change its form, so a block of one line has the form of its line. A form that
  announces a value need not hold one: there is no thirteenth month.
-/
import BoundaryTypes.Text.Hex
import BoundaryTypes.Text.Split
import BoundaryTypes.Yaml.Tag
import BoundaryTypes.Yaml.Time

namespace BoundaryTypes.Yaml

/-! ### Words -/

/-- The words of truth values, in small letters. -/
def truthWords : List (String × Bool) :=
  [("yes", true), ("no", false), ("true", true), ("false", false), ("on", true), ("off", false)]

/-- Whether a text is one of the words in small letters, in capitals, or with one capital in
front. -/
def isWordOf (words : List String) (s : List Char) : Bool :=
  let lower := s.map Char.toLower
  words.contains (String.ofList lower)
    && (s == lower || s == lower.map Char.toUpper
      || s == (lower.take 1).map Char.toUpper ++ lower.drop 1)

/-- The form of nothing; the empty text is nothing too. -/
def isNullForm (s : List Char) : Bool := s == ['~'] || isWordOf ["null"] s

/-- The form of a truth value. -/
def isTruthForm (s : List Char) : Bool := isWordOf (truthWords.map (·.1)) s

/-! ### Numbers -/

/-- The text without a sign in front. -/
def unsigned : List Char → List Char
  | '+' :: rest => rest
  | '-' :: rest => rest
  | rest => rest

/-- A digit or an underscore. -/
def isDigitOrGap (c : Char) : Bool := c.isDigit || c == '_'

/-- Digits and underscores that begin with a digit. -/
def isDigits (s : List Char) : Bool := s.head?.any Char.isDigit && s.all isDigitOrGap

/-- A further digit of base sixty. -/
def isSixtieth (s : List Char) : Bool :=
  match s with
  | [a] => a.isDigit
  | [a, b] => '0' ≤ a && a ≤ '5' && b.isDigit
  | _ => false

/-- The form of an integer. -/
def isIntegerForm (s : List Char) : Bool :=
  match unsigned s with
  | ['0'] => true
  | '0' :: 'b' :: digits => !digits.isEmpty && digits.all fun c => c == '0' || c == '1' || c == '_'
  | '0' :: 'x' :: digits =>
    !digits.isEmpty && digits.all fun c => (Text.hexValue? c).isSome || c == '_'
  -- A zero in front of other digits makes them octal.
  | '0' :: digits => digits.all fun c => ('0' ≤ c && c ≤ '7') || c == '_'
  | digits =>
    match Text.splitChars ':' digits with
    | first :: more => isDigits first && more.all isSixtieth
    | [] => false

/-- An exponent with its sign, or nothing. -/
def isExponentForm : List Char → Bool
  | [] => true
  | e :: sign :: digits =>
    (e == 'e' || e == 'E') && (sign == '-' || sign == '+') && !digits.isEmpty
      && digits.all Char.isDigit
  | _ => false

/-- The form of a fraction: it has a point. -/
def isFractionForm (s : List Char) : Bool :=
  let body := unsigned s
  if body == ['.', 'i', 'n', 'f'] || body == ['.', 'I', 'n', 'f'] || body == ['.', 'I', 'N', 'F']
  then true
  else if s == ['.', 'n', 'a', 'n'] || s == ['.', 'N', 'a', 'N'] || s == ['.', 'N', 'A', 'N']
  then true
  else
    let whole := body.takeWhile (· != '.')
    match body.dropWhile (· != '.') with
    | [] => false
    | _ :: fraction =>
      let plainEnd := isExponentForm (fraction.dropWhile isDigitOrGap)
      if whole.isEmpty then
        body.length = s.length && fraction.head?.any Char.isDigit && plainEnd
      else
        match Text.splitChars ':' whole with
        | [digits] => isDigits digits && plainEnd
        -- In base sixty there is no exponent.
        | digits :: more => isDigits digits && more.all isSixtieth && fraction.all isDigitOrGap
        | [] => false

/-! ### All forms -/

/-- A text without a line break at its end. -/
def withoutLastBreak (s : List Char) : List Char :=
  if s.getLast? = some '\n' then s.dropLast else s

/-- What marks announce that stand alone. The marks in front of a tag, an anchor or a reference are
of a kind that has no values. -/
def Tag.ofMarks : List Char → Tag
  | ['<', '<'] => .merge
  | ['='] => .value
  | ['!'] | ['&'] | ['*'] => .unknown
  | _ => .text

/-- What a scalar without tag is. -/
def Tag.ofForm (text : String) : Tag :=
  let s := withoutLastBreak text.toList
  if text = "" || isNullForm s then .null
  else if isTruthForm s then .bool
  else if isFractionForm s then .float
  else if isIntegerForm s then .int
  else if isTimeForm s then .timestamp
  else Tag.ofMarks s

end BoundaryTypes.Yaml
