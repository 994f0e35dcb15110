/-
  `Numeral` — numbers read from text.

  A numeral may stand between blanks, may be written with the decimal digits of any
  script, and may hold single underscores between its digits. `readInt?` reads an
  integer, `readFloat?` a decimal fraction with an optional exponent, an infinity or
  a nan. The value of a fraction is the nearest double. `readIntIn?` reads an integer
  without underscores in any base up to sixteen.
-/
import BoundaryTypes.Decimal.Binary
import BoundaryTypes.Text.Blank
import BoundaryTypes.Text.DecimalDigit
import BoundaryTypes.Text.Hex

namespace BoundaryTypes.Decimal

open Text

/-- A blank of the ASCII range at the ends of a numeral. -/
def isPlainBlank (c : Char) : Bool := c == ' ' || ('\t' ≤ c && c ≤ '\r')

/-- The plain form of one character: a digit of any script becomes an ASCII digit and a blank
beyond ASCII a space. -/
def plainChar? (c : Char) : Option Char :=
  if c.toNat < 127 then some c
  else if isBlank c then some ' '
  else (digitValue? c).map fun d => Char.ofNat (48 + d)

/-- The underscores of a numeral removed; each must stand between two digits. `before` says that
a digit came before. -/
def dropUnderscores? (before : Bool) : List Char → Option (List Char)
  | [] => some []
  | '_' :: c :: rest =>
    if before && c.isDigit then (dropUnderscores? true rest).map (c :: ·) else none
  | ['_'] => none
  | c :: rest => (dropUnderscores? c.isDigit rest).map (c :: ·)

/-- The characters without blanks at the ends. -/
def withoutPlainBlanks (s : List Char) : List Char :=
  ((s.dropWhile isPlainBlank).reverse.dropWhile isPlainBlank).reverse

/-- The characters of a numeral in plain form, without blanks at the ends. -/
def plainNumeral? (s : List Char) : Option (List Char) := do
  let plain ← s.mapM plainChar?
  let bare ← dropUnderscores? false plain
  pure (withoutPlainBlanks bare)

/-- The number that ASCII digits spell. -/
def natOfDigits (digits : List Char) : Nat :=
  digits.foldl (fun n c => 10 * n + (c.toNat - 48)) 0

/-- A sign in front, and the rest: `true` for a minus. -/
def takeSign : List Char → Bool × List Char
  | '-' :: rest => (true, rest)
  | '+' :: rest => (false, rest)
  | rest => (false, rest)

/-- The nearest double to `digits * 10 ^ exponent`. Beyond the range of doubles the power of ten
need not be computed. -/
def nearestFloat (digits : Nat) (exponent : Int) : Float :=
  let magnitude := (digitCount digits : Int) + exponent
  if digits = 0 ∨ magnitude < -400 then 0.0
  else if 400 < magnitude then 1.0 / 0.0
  else Float.ofScientific digits (exponent < 0) exponent.natAbs

/-- The double with the sign and the magnitude given. -/
def signed (negative : Bool) (x : Float) : Float := if negative then -x else x

/-- An exponent part, or nothing: `some 0` when there is none. -/
def readExponent? : List Char → Option Int
  | [] => some 0
  | c :: rest =>
    if c = 'e' ∨ c = 'E' then
      let (negative, digits) := takeSign rest
      if digits.isEmpty || !digits.all Char.isDigit then none
      else
        let n : Int := natOfDigits digits
        some (if negative then -n else n)
    else none

/-- An unsigned decimal fraction: digits, a point and digits, an exponent. A digit is needed
before or after the point. -/
def readFraction? (s : List Char) : Option Float := do
  let whole := s.takeWhile Char.isDigit
  let rest := s.dropWhile Char.isDigit
  let (fraction, rest) := match rest with
    | '.' :: more => (more.takeWhile Char.isDigit, more.dropWhile Char.isDigit)
    | _ => ([], rest)
  if whole.isEmpty && fraction.isEmpty then none
  let exponent ← readExponent? rest
  pure (nearestFloat (natOfDigits (whole ++ fraction)) (exponent - fraction.length))

/-- The integer that a numeral spells in base ten. -/
def readInt? (s : String) : Option Int := do
  let (negative, digits) := takeSign (← plainNumeral? s.toList)
  if digits.isEmpty || !digits.all Char.isDigit then none
  let n : Int := natOfDigits digits
  pure (if negative then -n else n)

/-- The letter behind a zero that announces a base. -/
def baseLetter? : Nat → Option Char
  | 2 => some 'b'
  | 8 => some 'o'
  | 16 => some 'x'
  | _ => none

/-- The digits of a numeral without the zero and the letter that announce its base. -/
def withoutBase (base : Nat) : List Char → List Char
  | '0' :: c :: rest => if baseLetter? base = some c.toLower then rest else '0' :: c :: rest
  | digits => digits

/-- The number that digits of a base spell. -/
def natInBase? (base : Nat) (digits : List Char) : Option Nat :=
  digits.foldlM (fun n c => ((hexValue? c).filter (· < base)).map (base * n + ·)) 0

/-- The integer that a numeral without underscores spells in a base up to sixteen. -/
def readIntIn? (base : Nat) (s : String) : Option Int := do
  let (negative, body) := takeSign (withoutPlainBlanks (← s.toList.mapM plainChar?))
  let digits := withoutBase base body
  if digits.isEmpty then none
  let n : Int := ← natInBase? base digits
  pure (if negative then -n else n)

/-- The double that a numeral spells. -/
def readFloat? (s : String) : Option Float := do
  let (negative, body) := takeSign (← plainNumeral? s.toList)
  let word := String.ofList (body.map Char.toLower)
  if word = "inf" ∨ word = "infinity" then pure (signed negative (1.0 / 0.0))
  else if word = "nan" then pure (0.0 / 0.0)
  else
    let x ← readFraction? body
    pure (signed negative x)

/-- The nearest double to an integer; `none` when that is beyond the range of doubles. -/
def floatOfInt? (n : Int) : Option Float :=
  let x := nearestFloat n.natAbs 0
  if x.isInf then none else some (signed (n < 0) x)

end BoundaryTypes.Decimal
