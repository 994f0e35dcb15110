/-
  `Binary` — a finite floating point number as an exact decimal.

  A finite double is `mantissa * 2 ^ exponent`. Written over a power of ten it has
  finitely many digits, so the number and the two ends of the interval of reals
  that round to it are natural numbers over one unit `10 ^ (-places)`. Choosing and
  rounding digits is then arithmetic of naturals.
-/

namespace BoundaryTypes.Decimal

/-- How many decimal digits a number has; zero has none. -/
def digitCount (n : Nat) : Nat := if n = 0 then 0 else (Nat.toDigits 10 n).length

/-- The magnitude of a finite double with its rounding interval, in units of `10 ^ (-places)`. -/
structure Binary where
  /-- The lower end of the reals that round to the number. -/
  lower : Nat
  value : Nat
  /-- The upper end of the reals that round to the number. -/
  upper : Nat
  places : Nat
  /-- The ends belong to the interval when the mantissa is even. -/
  closed : Bool
deriving DecidableEq, Repr

/-- The exact decimal of `mantissa * 2 ^ exponent`. Below a power of two the gap to the next
number is half as wide as above it (`narrow`). -/
def Binary.ofParts (mantissa : Nat) (exponent : Int) (narrow : Bool) : Binary :=
  let factor := Nat.pow 2 (exponent - 2).toNat * Nat.pow 5 (2 - exponent).toNat
  { lower := (4 * mantissa - if narrow then 1 else 2) * factor
    value := 4 * mantissa * factor
    upper := (4 * mantissa + 2) * factor
    places := (2 - exponent).toNat
    closed := mantissa % 2 == 0 }

/-- The exact decimal of the magnitude of a finite double, from its bits. -/
def Binary.ofBits (bits : UInt64) : Binary :=
  let biased := ((bits >>> 52) &&& 0x7FF).toNat
  let fraction := (bits &&& 0xFFFFFFFFFFFFF).toNat
  -- The least numbers have no hidden bit, and all gaps between them are equal.
  if biased = 0 then ofParts fraction (-1074) false
  else ofParts (Nat.pow 2 52 + fraction) (biased - 1075) (fraction == 0 && biased > 1)

/-- A number in units of `10 ^ (-places)` reads back as the double when it lies in the interval. -/
def Binary.readsBack (x : Binary) (n : Nat) : Bool :=
  (x.lower < n && n < x.upper) || (x.closed && (n == x.lower || n == x.upper))

end BoundaryTypes.Decimal
