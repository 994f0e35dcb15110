/-
  `Lines` — text cut into lines, and line ends made uniform.

  A line ends after `\n`, `\r`, `\r\n`, or one of the rarer separators (vertical
  tab, form feed, U+001C to U+001E, U+0085, U+2028, U+2029). Lines keep their
  ends, so nothing is lost: `flatten_splitLines` puts the text together again.
-/

namespace BoundaryTypes.Text

/-- A character that ends a line. -/
def endsLine (c : Char) : Bool :=
  c == '\n' || c == '\r' || c == '\x0b' || c == '\x0c' || c == '\x1c' || c == '\x1d' ||
    c == '\x1e' || c == '\u0085' || c == '\u2028' || c == '\u2029'

/-- `c` put in front of the first line. -/
def consLine (c : Char) : List (List Char) → List (List Char)
  | [] => [[c]]
  | l :: rest => (c :: l) :: rest

/-- The lines of a text, each with its end; a last line may have none. -/
def splitLines : List Char → List (List Char)
  | [] => []
  | '\r' :: '\n' :: rest => ['\r', '\n'] :: splitLines rest
  | c :: rest => if endsLine c then [c] :: splitLines rest else consLine c (splitLines rest)

/-- `splitLines` on strings. -/
def lines (s : String) : List String := (splitLines s.toList).map String.ofList

/-- Every `\r\n` and every other `\r` becomes `\n`. -/
def unifyLineEnds : List Char → List Char
  | [] => []
  | '\r' :: '\n' :: rest => '\n' :: unifyLineEnds rest
  | c :: rest => (if c = '\r' then '\n' else c) :: unifyLineEnds rest

/-- `unifyLineEnds` on strings. -/
def withUniformLineEnds (s : String) : String := String.ofList (unifyLineEnds s.toList)

theorem flatten_consLine (c : Char) (ls : List (List Char)) :
    (consLine c ls).flatten = c :: ls.flatten := by
  cases ls <;> simp [consLine]

/-- The lines of a text, one after another, are the text. -/
theorem flatten_splitLines (s : List Char) : (splitLines s).flatten = s := by
  fun_induction splitLines s with
  | case1 => rfl
  | case2 rest ih => simp [ih]
  | case3 c rest _ _ ih => simp [ih]
  | case4 c rest _ _ ih => simp [flatten_consLine, ih]

/-- Text without carriage returns is uniform already. -/
theorem unifyLineEnds_eq_self (s : List Char) (h : '\r' ∉ s) : unifyLineEnds s = s := by
  induction s with
  | nil => rfl
  | cons c rest ih =>
    simp only [List.mem_cons, not_or] at h
    rw [unifyLineEnds]
    · rw [ih h.2, if_neg (fun e => h.1 e.symm)]
    · rintro r rfl
      exact absurd rfl h.1

end BoundaryTypes.Text
