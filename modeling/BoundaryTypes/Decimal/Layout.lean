/-
  `Layout` — how chosen digits are written.

  A number is written positionally while the exponent of its leading digit is at
  least -4 and below a limit, and with a signed exponent of at least two digits
  otherwise. Two layouts are used: `natural` shows the fewest digits that read
  back, `general` shows six significant digits.
-/
import BoundaryTypes.Decimal.Digits

namespace BoundaryTypes.Decimal

/-- The decisions of a layout. -/
structure Layout where
  /-- Exponents of the leading digit from here on are written with an exponent. -/
  plainBelow : Int
  /-- Whether a number without a fraction shows `.0`. -/
  pointZero : Bool
deriving DecidableEq, Repr

/-- The exponent part: a sign and at least two digits. -/
def exponentText (e : Int) : String :=
  let digits := toString e.natAbs
  "e" ++ (if e < 0 then "-" else "+") ++ (if e.natAbs < 10 then "0" ++ digits else digits)

/-- The text of a positive decimal. -/
def Layout.write (l : Layout) (d : Digits) : String :=
  let e := d.point - 1
  let size : Int := d.digits.length
  let zeros (n : Int) := List.replicate n.toNat '0'
  if e < -4 ∨ l.plainBelow ≤ e then
    -- One digit in front of the point, the others behind it.
    let fraction := d.digits.drop 1
    String.ofList (d.digits.take 1 ++ if fraction.isEmpty then [] else '.' :: fraction)
      ++ exponentText e
  -- Below one: zeros come between the point and the digits.
  else if d.point ≤ 0 then String.ofList ('0' :: '.' :: zeros (-d.point) ++ d.digits)
  -- A whole number: zeros fill up to the place of the point.
  else if size ≤ d.point then
    String.ofList (d.digits ++ zeros (d.point - size)) ++ if l.pointZero then ".0" else ""
  else String.ofList (d.digits.take d.point.toNat ++ '.' :: d.digits.drop d.point.toNat)

/-- The text of a double, with the digits that `select` takes from its exact decimal. -/
def Layout.writeFloat (l : Layout) (select : Binary → Digits) (x : Float) : String :=
  let bits := x.toBits
  let sign := if bits >>> 63 = 1 then "-" else ""
  if x.isNaN then "nan"
  else if x.isInf then sign ++ "inf"
  else if bits <<< 1 = 0 then sign ++ if l.pointZero then "0.0" else "0"
  else sign ++ l.write (select (Binary.ofBits bits))

/-- The fewest digits that read back, positional below `10 ^ 16`, `.0` for a whole number. -/
def natural (x : Float) : String := (Layout.mk 16 true).writeFloat Binary.shortest x

/-- Six significant digits, positional below `10 ^ 6`, a whole number without a point. -/
def general (x : Float) : String :=
  (Layout.mk 6 false).writeFloat (fun b => b.significant 6) x

end BoundaryTypes.Decimal
