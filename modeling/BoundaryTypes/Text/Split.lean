/-
  `Split` — text cut at a separator.

  Cutting keeps every piece, also the empty ones, so there is one piece more than
  there are separators, and joining the pieces gives the text back.
-/

namespace BoundaryTypes.Text

/-- `c` put in front of the first piece. -/
def consPiece (c : Char) : List (List Char) → List (List Char)
  | [] => [[c]]
  | p :: rest => (c :: p) :: rest

/-- The pieces between the separators. -/
def splitChars (separator : Char) : List Char → List (List Char)
  | [] => [[]]
  | c :: rest =>
    if c = separator then [] :: splitChars separator rest
    else consPiece c (splitChars separator rest)

/-- `splitChars` on strings. -/
def splitOn (separator : Char) (s : String) : List String :=
  (splitChars separator s.toList).map String.ofList

/-- The pieces joined by the separator. -/
def joinChars (separator : Char) : List (List Char) → List Char
  | [] => []
  | [p] => p
  | p :: rest => p ++ separator :: joinChars separator rest

theorem splitChars_ne_nil (separator : Char) (s : List Char) : splitChars separator s ≠ [] := by
  cases s with
  | nil => simp [splitChars]
  | cons c rest =>
    simp only [splitChars]
    split
    · simp
    · cases splitChars separator rest <;> simp [consPiece]

theorem splitOn_ne_nil (separator : Char) (s : String) : splitOn separator s ≠ [] := by
  rw [splitOn, Ne, List.map_eq_nil_iff]
  exact splitChars_ne_nil separator s.toList

/-- The pieces joined again are the text. -/
theorem joinChars_splitChars (separator : Char) (s : List Char) :
    joinChars separator (splitChars separator s) = s := by
  induction s with
  | nil => rfl
  | cons c rest ih =>
    obtain ⟨p, ps, h⟩ := List.exists_cons_of_ne_nil (splitChars_ne_nil separator rest)
    simp only [splitChars]
    split
    · next hc => rw [h] at ih ⊢; simp [joinChars, ih, hc]
    · rw [h] at ih ⊢
      cases ps <;> simp_all [consPiece, joinChars]

end BoundaryTypes.Text
