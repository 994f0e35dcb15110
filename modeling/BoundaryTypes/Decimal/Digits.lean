/-
  `Digits` — which decimal digits stand for a number.

  Two selections are made on the exact decimal of a double. `shortest` takes the
  fewest digits that read back: for one digit, two digits and so on it tests the two
  neighbours of the value on that grid. `significant` rounds the value itself to a
  number of digits, a tie going to the even neighbour.
-/
import BoundaryTypes.Decimal.Binary

namespace BoundaryTypes.Decimal

/-- Decimal digits `0.d₁d₂… * 10 ^ point`; the last digit is not zero. -/
structure Digits where
  digits : List Char
  point : Int
deriving DecidableEq, Repr

/-- The digits of `n` in units of `10 ^ (-places)`, without trailing zeros. -/
def Digits.ofNat (n places : Nat) : Digits :=
  if n = 0 then ⟨[], 0⟩
  else
    { digits := ((Nat.toDigits 10 n).reverse.dropWhile (· == '0')).reverse
      point := (digitCount n : Int) - places }

/-- Rounds `num / den` to the nearest integer, a tie to the even one. -/
def roundHalfEven (num den : Nat) : Nat :=
  let q := num / den
  let r := num % den
  if 2 * r < den then q else if den < 2 * r then q + 1 else if q % 2 = 0 then q else q + 1

/-- The neighbour of the value on the grid of `unit` that reads back: the closer one if both do,
and the one with an even last digit if they are equally close. -/
def Binary.onGrid? (x : Binary) (unit : Nat) : Option Nat :=
  let below := x.value / unit * unit
  let above := below + unit
  match x.readsBack below, x.readsBack above with
  | true, true => some (roundHalfEven x.value unit * unit)
  | true, false => some below
  | false, true => some above
  | false, false => none

/-- The fewest digits that read back; seventeen always suffice, and the exact value reads back in
any case. -/
def Binary.shortest (x : Binary) : Digits :=
  let size := digitCount x.value
  -- The grids go from one digit to seventeen.
  let found := ((List.range 17).map (· + 1)).findSome? fun n => x.onGrid? (Nat.pow 10 (size - n))
  Digits.ofNat (found.getD x.value) x.places

/-- The value rounded to `count` significant digits. -/
def Binary.significant (x : Binary) (count : Nat) : Digits :=
  let unit := Nat.pow 10 (digitCount x.value - count)
  Digits.ofNat (roundHalfEven x.value unit * unit) x.places

end BoundaryTypes.Decimal
