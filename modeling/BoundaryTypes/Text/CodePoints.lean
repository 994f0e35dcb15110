/-
  `CodePoints` — sets of characters given as closed ranges of code points.

  A character class that is data of the Unicode standard is kept as a list of
  ranges, ascending and apart. Membership is one lookup.
-/

namespace BoundaryTypes

/-- A set of code points: closed ranges, ascending and apart. -/
abbrev CodePoints := List (Nat × Nat)

namespace CodePoints

/-- A code point belongs to the set when one of the ranges holds it. -/
def contains (ranges : CodePoints) (n : Nat) : Bool :=
  ranges.any fun r => r.1 ≤ n && n ≤ r.2

end CodePoints

end BoundaryTypes
