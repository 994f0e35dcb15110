/-
  `Patch` — a reader of differences, which applies what it reads.

  The reader knows nothing of how a difference was made. It takes the text line by line: two
  header lines, then heads of hunks, each with the number of lines it announces, which begin with a
  blank, `-` or `+` (`readItems`). Applying what was read takes the lines before a hunk over and
  insists that a line to be kept or removed is the one that is there (`applyItems`).
-/
import BoundaryTypes.Diff.Unified
import BoundaryTypes.Text.DecimalDigit

namespace BoundaryTypes.Diff

/-- What a line of a difference says: which ranges the next lines are about, or what becomes of one
line. -/
inductive Item where
  | head (left right : Span)
  | keep (line : List Char)
  | remove (line : List Char)
  | add (line : List Char)
deriving DecidableEq, Repr

/-! ### Reading -/

/-- A number at the beginning of a text, and what is after it. -/
def readNumber? (text : List Char) : Option (Nat × List Char) :=
  if (text.takeWhile Char.isDigit).isEmpty then none
  else some (Nat.ofDigitChars 10 (text.takeWhile Char.isDigit) 0, text.dropWhile Char.isDigit)

/-- The lines meant by the number of the first and how many they are. An empty range names the line
before it. -/
def spanOf? : Nat → Nat → Option Span
  | first, 0 => some ⟨first, first⟩
  | 0, _ + 1 => none
  | first + 1, size => some ⟨first, first + size⟩

/-- How many lines a range has: one unless a number is given. -/
def readSize? (text : List Char) : Option (Nat × List Char) :=
  if text.head? = some ',' then readNumber? text.tail else some (1, text)

/-- A range of lines. -/
def readRange? (text : List Char) : Option (Span × List Char) := do
  let (first, rest) ← readNumber? text
  let (size, rest) ← readSize? rest
  let span ← spanOf? first size
  pure (span, rest)

/-- The head of a hunk: the ranges of both texts. -/
def readHead? (line : List Char) : Option (Span × Span) := do
  let rest ← "@@ -".toList.isPrefixOf? line
  let (left, rest) ← readRange? rest
  let rest ← " +".toList.isPrefixOf? rest
  let (right, rest) ← readRange? rest
  guard (rest = " @@\n".toList)
  pure (left, right)

/-- Reads a line of which the hunk still has `a` lines of the left text and `b` of the right to
come; also how many are to come after it. -/
def readLine? : Nat → Nat → List Char → Option (Item × Nat × Nat)
  | 0, 0, line =>
    (readHead? line).map fun (left, right) => (.head left right, left.size, right.size)
  | a + 1, b + 1, ' ' :: line => some (.keep line, a, b)
  | a + 1, b, '-' :: line => some (.remove line, a, b)
  | a, b + 1, '+' :: line => some (.add line, a, b)
  | _, _, _ => none

/-- Reads the lines after the header. -/
def readItems (a b : Nat) : List (List Char) → Option (List Item)
  | [] => if a = 0 ∧ b = 0 then some [] else none
  | line :: rest => do
    let (item, a, b) ← readLine? a b line
    let items ← readItems a b rest
    pure (item :: items)

/-- Reads the lines of a difference. -/
def readPatch : List (List Char) → Option (List Item)
  | old :: new :: rest =>
    if "--- ".toList.isPrefixOf old ∧ "+++ ".toList.isPrefixOf new then readItems 0 0 rest else none
  | _ => none

/-! ### Applying -/

/-- The lines of the right text from those of the left that remain, after `i` lines of the left and
`j` of the right. -/
def applyItems : List (List Char) → Nat → Nat → List Item → Option (List (List Char))
  | lines, _, _, [] => some lines
  | lines, i, j, .head left right :: items =>
    -- The lines before a hunk stay.
    if i ≤ left.start ∧ left.start - i ≤ lines.length ∧ right.start = j + (left.start - i) then
      (applyItems (lines.drop (left.start - i)) left.start right.start items).map
        (lines.take (left.start - i) ++ ·)
    else none
  | line :: lines, i, j, .keep text :: items =>
    if text = line then (applyItems lines (i + 1) (j + 1) items).map (line :: ·) else none
  | line :: lines, i, j, .remove text :: items =>
    if text = line then applyItems lines (i + 1) j items else none
  | lines, i, j, .add text :: items => (applyItems lines i (j + 1) items).map (text :: ·)
  | [], _, _, _ :: _ => none
termination_by structural _ _ _ items => items

/-- The text that a difference makes of another, where `cut` says what the lines of a text are. -/
def patched (cut : List Char → List (List Char)) (current difference : String) : Option String := do
  let items ← readPatch (cut difference.toList)
  let lines ← applyItems (cut current.toList) 0 0 items
  pure (String.ofList lines.flatten)

/-! ### Lines that say what was meant -/

/-- The line that says an item. -/
def Item.text : Item → List Char
  | .head left right =>
    "@@ -".toList ++ (rangeText left).toList ++ " +".toList ++ (rangeText right).toList
      ++ " @@\n".toList
  | .keep line => ' ' :: line
  | .remove line => '-' :: line
  | .add line => '+' :: line

theorem isPrefixOf?_append (s t : List Char) : s.isPrefixOf? (s ++ t) = some t := by
  induction s with
  | nil => rfl
  | cons c s ih => exact (if_pos (beq_self_eq_true c)).trans ih

/-- A number is read up to a character that is no digit. -/
theorem readNumber?_toString (n : Nat) {rest : List Char}
    (hrest : ∀ c ∈ rest.head?, c.isDigit = false) :
    readNumber? ((toString n).toList ++ rest) = some (n, rest) := by
  have hall : ∀ c ∈ (toString n).toList, c.isDigit = true := fun c hc =>
    Text.isDigit_of_mem_toString hc
  have htake : rest.takeWhile Char.isDigit = [] := by
    cases rest with
    | nil => rfl
    | cons c rest => exact List.takeWhile_cons_of_neg (by simp [hrest c rfl])
  have hdrop : rest.dropWhile Char.isDigit = rest := by
    cases rest with
    | nil => rfl
    | cons c rest => exact List.dropWhile_cons_of_neg (by simp [hrest c rfl])
  rw [readNumber?, List.takeWhile_append_of_pos hall, List.dropWhile_append_of_pos hall, htake,
    hdrop, List.append_nil, Nat.toString_eq_repr, Nat.toList_repr, if_neg,
    Nat.ofDigitChars_ten_toDigits]
  simp

/-- A range is read from its text, also where its size of one is left out. -/
theorem readRange?_rangeText {s : Span} (hs : s.start ≤ s.stop) {c : Char} (hc : c.isDigit = false)
    (hcomma : c ≠ ',') (rest : List Char) :
    readRange? ((rangeText s).toList ++ c :: rest) = some (s, c :: rest) := by
  obtain ⟨start, stop⟩ := s
  obtain ⟨size, rfl⟩ : ∃ size, stop = start + size := ⟨stop - start, (Nat.add_sub_cancel' hs).symm⟩
  have hend : ∀ d ∈ (c :: rest).head?, d.isDigit = false := fun d hd => by cases hd; exact hc
  have hsize : Span.size ⟨start, start + size⟩ = size := Nat.add_sub_cancel_left ..
  rw [rangeText, hsize]
  -- A size of one is not written; any other stands behind a comma.
  split
  · next hone =>
    subst hone
    have hnone : readSize? (c :: rest) = some (1, c :: rest) :=
      if_neg fun h => hcomma (Option.some.inj h)
    rw [readRange?, readNumber?_toString _ hend]
    simp only [Option.bind_eq_bind, Option.bind_some, hnone]
    rfl
  · have hmany :
        readSize? (',' :: ((toString size).toList ++ c :: rest)) = some (size, c :: rest) :=
      (if_pos rfl).trans (readNumber?_toString size hend)
    have hcomma : ",".toList = [','] := rfl
    rw [String.toList_append, String.toList_append, hcomma, List.append_assoc, List.append_assoc,
      List.singleton_append, readRange?,
      readNumber?_toString _ fun d hd => by cases hd; rfl]
    simp only [Option.bind_eq_bind, Option.bind_some, hmany]
    cases size <;> rfl

/-- The head of a hunk is read from its text. -/
theorem readHead?_text {left right : Span} (hleft : left.start ≤ left.stop)
    (hright : right.start ≤ right.stop) :
    readHead? (Item.head left right).text = some (left, right) := by
  have hplus (rest : List Char) : " +".toList ++ rest = ' ' :: '+' :: rest := rfl
  have hrest :
      " +".toList.isPrefixOf? (' ' :: '+' :: ((rangeText right).toList ++ " @@\n".toList)) =
      some ((rangeText right).toList ++ " @@\n".toList) := isPrefixOf?_append " +".toList _
  have hlast : readRange? ((rangeText right).toList ++ " @@\n".toList) =
      some (right, " @@\n".toList) := readRange?_rangeText hright rfl (by decide) _
  have hfirst : readRange? ((rangeText left).toList ++
      ' ' :: '+' :: ((rangeText right).toList ++ " @@\n".toList)) = some (left, _) :=
    readRange?_rangeText hleft rfl (by decide) _
  simp only [Item.text, List.append_assoc]
  rw [hplus, readHead?, isPrefixOf?_append]
  refine Option.bind_eq_some_iff.2 ⟨_, rfl, Option.bind_eq_some_iff.2 ⟨_, hfirst, ?_⟩⟩
  exact Option.bind_eq_some_iff.2 ⟨_, hrest, Option.bind_eq_some_iff.2 ⟨_, hlast, rfl⟩⟩

/-- The head of a hunk begins with no mark of a line. -/
theorem readHead?_eq_none {c : Char} (hc : c ≠ '@') (line : List Char) :
    readHead? (c :: line) = none := by
  have hprefix : "@@ -".toList.isPrefixOf? (c :: line) = none := by
    have hother : ¬('@' == c) = true := by simpa using Ne.symm hc
    exact if_neg hother
  rw [readHead?, hprefix]
  rfl

example : patched Text.splitLines "a\nb\n" (render "a\nb\n" "a\nc\n" "x") = some "a\nc\n" := by
  decide +kernel

end BoundaryTypes.Diff
