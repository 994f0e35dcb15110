/-
  `Time` — points in time as a YAML text writes them.

  A date has a year of four digits, a month and a day. A time of day may follow, with
  a fraction of a second, which does not matter here, and a zone. The form is read
  first; afterwards the zone must lie within a day of the standard one, and each part
  must lie in its range, from the year to the second.
-/
import BoundaryTypes.Decimal.Numeral
import BoundaryTypes.Yaml.Cursor

namespace BoundaryTypes.Yaml

/-- A time of day as it is written. -/
structure WrittenClock where
  hour : Nat
  minute : Nat
  second : Nat
  /-- The distance of the zone in minutes, when the text gives one by hours. -/
  zone : Option Int

/-- A point in time as it is written, before its parts are checked. -/
structure WrittenTime where
  year : Nat
  month : List Char
  day : List Char
  /-- The time of day, unless the text is a date. -/
  clock : Option WrittenClock

/-- The number of digits that a text has in front, at most `most`. -/
def leadingDigits (most : Nat) (s : List Char) : List Char := (s.take most).takeWhile Char.isDigit

/-- A run of digits whose length is in the range, and what follows it. -/
def takeDigits? (least most : Nat) (s : List Char) : Option (List Char × List Char) :=
  let digits := leadingDigits most s
  if least ≤ digits.length then some (digits, s.drop digits.length) else none

/-- A character in front, and what follows it. -/
def takeChar? (c : Char) (s : List Char) : Option (List Char) :=
  if s.head? = some c then some (s.drop 1) else none

/-- A space or tab. -/
def isGap (c : Char) : Bool := c == ' ' || c == '\t'

/-- The minutes of a zone with the sign given: hours, and perhaps minutes behind a colon. -/
def readDistance? (sign : Int) (s : List Char) : Option Int := do
  let (hours, s) ← takeDigits? 1 2 s
  let minutes ← match s with
    | [] => some 0
    | ':' :: minutes =>
      if minutes.length = 2 ∧ minutes.all Char.isDigit then some (Decimal.natOfDigits minutes)
      else none
    | _ => none
  pure (sign * (60 * Decimal.natOfDigits hours + minutes : Nat))

/-- The zone that a text is: none at all, `Z`, or a distance with a sign. -/
def readZone? (s : List Char) : Option (Option Int) :=
  match s.dropWhile isGap with
  -- Gaps alone are not a zone.
  | [] => if s.isEmpty then some none else none
  | ['Z'] => some none
  | '+' :: rest => (readDistance? 1 rest).map some
  | '-' :: rest => (readDistance? (-1) rest).map some
  | _ => none

/-- The time of day in a text, with a fraction of a second and a zone. -/
def readClock? (s : List Char) : Option WrittenClock := do
  let (hour, s) ← takeDigits? 1 2 s
  let (minute, s) ← takeDigits? 2 2 (← takeChar? ':' s)
  let (second, s) ← takeDigits? 2 2 (← takeChar? ':' s)
  let s := match s with
    | '.' :: rest => rest.dropWhile Char.isDigit
    | _ => s
  let zone ← readZone? s
  pure ⟨Decimal.natOfDigits hour, Decimal.natOfDigits minute, Decimal.natOfDigits second, zone⟩

/-- The point in time that a text writes. -/
def readTime? (s : List Char) : Option WrittenTime := do
  let (year, s) ← takeDigits? 4 4 s
  let (month, s) ← takeDigits? 1 2 (← takeChar? '-' s)
  let (day, s) ← takeDigits? 1 2 (← takeChar? '-' s)
  let year := Decimal.natOfDigits year
  match s with
  | [] => pure ⟨year, month, day, none⟩
  | c :: rest =>
    if c == 'T' || c == 't' then pure ⟨year, month, day, some (← readClock? rest)⟩
    else if isGap c then pure ⟨year, month, day, some (← readClock? (rest.dropWhile isGap))⟩
    else none

/-- The form of a point in time: a date alone has months and days of two digits. -/
def isTimeForm (s : List Char) : Bool :=
  (readTime? s).any fun t => t.clock.isSome || (t.month.length = 2 && t.day.length = 2)

/-- How many days a month has. -/
def daysOfMonth (year month : Nat) : Nat :=
  if month = 2 then
    if year % 4 = 0 ∧ (year % 100 ≠ 0 ∨ year % 400 = 0) then 29 else 28
  else if month = 4 ∨ month = 6 ∨ month = 9 ∨ month = 11 then 30
  else 31

/-- How many minutes a day has. -/
def minutesOfDay : Nat := 24 * 60

/-- A zone must be less than a day away. -/
def checkZone (zone : Option Int) : Except Fault Unit :=
  match zone with
  | none => .ok ()
  | some minutes => if minutes.natAbs < minutesOfDay then .ok () else .error (.zoneTooFar minutes)

/-- A part of a point in time that must lie in a range. -/
def checkPart (part : TimePart) (low high value : Nat) : Except Fault Unit :=
  if low ≤ value ∧ value ≤ high then .ok () else .error (.outOfRange part value)

/-- Checks the zone of a point in time, and then its parts from the year to the second. -/
def WrittenTime.check (t : WrittenTime) : Except Fault Unit := do
  checkZone (t.clock.bind (·.zone))
  let month := Decimal.natOfDigits t.month
  checkPart .year 1 9999 t.year
  checkPart .month 1 12 month
  checkPart .day 1 (daysOfMonth t.year month) (Decimal.natOfDigits t.day)
  if let some clock := t.clock then
    checkPart .hour 0 23 clock.hour
    checkPart .minute 0 59 clock.minute
    checkPart .second 0 59 clock.second

end BoundaryTypes.Yaml
