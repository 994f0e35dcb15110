/-
  `Quotation` — a literal is one token, and shows where it ends.

  Whether a double quote closes a literal is decided by the backslashes in front of it: an odd
  number of them escapes it. Inside a literal each backslash stands in front of the character
  that it escapes (`Json.Inside`), so behind each such pair their number is even again, and a
  quote has an odd number in front of it if it is the second of a pair (`Inside.delimited`).

  A reader that comes to the closing quote has the text of the literal, and everything behind it
  is left (`readFirst_quote`). Keys, tags and the members of enumerations can be told from what
  follows them for this reason (`quote_is_token`).
-/
import BoundaryTypes.Proofs.Json.Document
import BoundaryTypes.Proofs.TypeExpr.Readability
import Mathlib.Algebra.Ring.Parity
import Mathlib.Data.List.DropRight

namespace BoundaryTypes

namespace Json

variable {s before behind : List Char} {c : Char}

/-! ### Backslashes in front of a quote -/

/-- The number of backslashes in a row at the end of a text. -/
def backslashesAtEnd (s : List Char) : Nat := (s.rtakeWhile (· == '\\')).length

theorem backslashesAtEnd_concat_backslash (s : List Char) :
    backslashesAtEnd (s ++ ['\\']) = backslashesAtEnd s + 1 := by
  rw [backslashesAtEnd, List.rtakeWhile_concat_pos _ _ _ rfl, List.length_append,
    List.length_singleton, backslashesAtEnd]

theorem backslashesAtEnd_concat (s : List Char) (h : c ≠ '\\') :
    backslashesAtEnd (s ++ [c]) = 0 := by
  have hc : ¬ (c == '\\') = true := fun heq => h (eq_of_beq heq)
  rw [backslashesAtEnd, List.rtakeWhile_concat_neg (· == '\\') s c hc, List.length_nil]

/-- A quote in a text is its last character or stands in front of it. -/
theorem quote_at_end_or_before (h : s ++ [c] = before ++ '"' :: behind) :
    (c = '"' ∧ s = before) ∨ ∃ rest, s = before ++ '"' :: rest := by
  rcases List.eq_nil_or_concat' behind with rfl | ⟨rest, d, rfl⟩
  · obtain ⟨hs, hc⟩ := List.append_singleton_inj.1 h
    exact .inl ⟨hc, hs⟩
  · rw [← List.cons_append, ← List.append_assoc] at h
    exact .inr ⟨rest, (List.append_singleton_inj.1 h).1⟩

/-- What stands between two quotes so that they are the two ends of one literal. -/
structure Delimited (s : List Char) : Prop where
  printable : ∀ c ∈ s, 0x20 ≤ c.toNat
  /-- A quote inside is escaped. -/
  escaped : ∀ before behind, s = before ++ '"' :: behind → Odd (backslashesAtEnd before)
  /-- The quote behind it is not escaped. -/
  closed : Even (backslashesAtEnd s)

namespace Inside

theorem printable (h : Inside s) : ∀ c ∈ s, 0x20 ≤ c.toNat := by
  induction h with
  | nil => exact nofun
  | plain _ hc ih =>
    rw [List.forall_mem_append, List.forall_mem_singleton]
    exact ⟨ih, hc.printable⟩
  | escaped _ hc ih =>
    rw [List.forall_mem_append, List.forall_mem_cons, List.forall_mem_singleton]
    exact ⟨ih, by decide, hc⟩

theorem even_backslashesAtEnd (h : Inside s) : Even (backslashesAtEnd s) := by
  induction h with
  | nil => exact .zero
  | @plain s c _ hc _ =>
    rw [backslashesAtEnd_concat s hc.ne_backslash]
    exact .zero
  | @escaped s c _ _ ih =>
    rw [List.append_cons]
    by_cases hc : c = '\\'
    · -- An escaped backslash makes two of them.
      rw [hc, backslashesAtEnd_concat_backslash, backslashesAtEnd_concat_backslash]
      exact ih.add even_two
    · rw [backslashesAtEnd_concat _ hc]
      exact .zero

/-- A quote inside a literal is the second of a pair: an even number of backslashes stands in front
of the pair, and its own one makes the number odd. -/
theorem odd_backslashesAtEnd (h : Inside s) (hs : s = before ++ '"' :: behind) :
    Odd (backslashesAtEnd before) := by
  induction h generalizing behind with
  | nil => exact absurd hs.symm (by simp)
  | plain _ hc ih =>
    rcases quote_at_end_or_before hs with ⟨hquote, -⟩ | ⟨rest, hs⟩
    · exact absurd hquote hc.ne_quote
    · exact ih hs
  | escaped hinside _ ih =>
    rw [List.append_cons] at hs
    rcases quote_at_end_or_before hs with ⟨-, rfl⟩ | ⟨rest, hs⟩
    · rw [backslashesAtEnd_concat_backslash]
      exact hinside.even_backslashesAtEnd.add_one
    · rcases quote_at_end_or_before hs with ⟨hquote, -⟩ | ⟨rest, hs⟩
      · exact absurd hquote (by decide)
      · exact ih hs

theorem delimited (h : Inside s) : Delimited s :=
  ⟨h.printable, fun _ _ => h.odd_backslashesAtEnd, h.even_backslashesAtEnd⟩

end Inside

/-! ### Reading a literal back -/

theorem readFirst_quote (s : String) (rest : List Char) :
    readFirst ((quote s).toList ++ rest) = .ok (.string s, rest) := by
  rw [toList_quote, readFirst_quoteChars, String.ofList_toList]

/-- Two literals that begin the same text are the same, and so are the texts behind them. -/
theorem quote_append_inj {s t x y : String} (h : quote s ++ x = quote t ++ y) :
    s = t ∧ x = y := by
  rw [← String.toList_inj, String.toList_append, String.toList_append, toList_quote,
    toList_quote] at h
  obtain ⟨hst, hxy⟩ := quoteChars_append_inj h
  exact ⟨String.toList_inj.1 hst, String.toList_inj.1 hxy⟩

end Json

namespace TypeExpr

open Json

/-- The key of a field shows where it ends, and so does its mark. -/
theorem key_append_inj {f g : String × TypeExpr} {x y : String}
    (h : keyText f.1 ++ optionalMark f.2 ++ ": " ++ x =
      keyText g.1 ++ optionalMark g.2 ++ ": " ++ y) :
    f.1 = g.1 ∧ optionalMark f.2 = optionalMark g.2 ∧ x = y := by
  rw [← String.toList_inj] at h
  simp only [String.toList_append, List.append_assoc] at h
  obtain ⟨hkey, hrest⟩ := keyText_append_inj (wordEnds_mark _ _) (wordEnds_mark _ _) h
  obtain ⟨hmark, hxy⟩ := mark_append_inj hrest
  exact ⟨hkey, hmark, String.toList_inj.1 hxy⟩

/-- **A literal is one token.** It begins and ends with a quote, and between them stand no control
characters, only escaped quotes, and nothing that would escape the last one. It is read as its text,
whatever follows it, so two literals that begin the same text are the same, and what follows them
is the same. The same holds of literal types, which tags and members of enumerations are, and of the
keys of records as they stand in front of their types. -/
theorem quote_is_token :
    (∀ s, ∃ inside, (quote s).toList = '"' :: (inside ++ ['"']) ∧ Delimited inside) ∧
    (∀ s, read (quote s) = .ok (.string s) ∧
      ∀ rest, readFirst ((quote s).toList ++ rest) = .ok (.string s, rest)) ∧
    (∀ s t x y, quote s ++ x = quote t ++ y ↔ s = t ∧ x = y) ∧
    (∀ s t x y, (literal s).inline ++ x = (literal t).inline ++ y ↔ s = t ∧ x = y) ∧
    ∀ (f g : String × TypeExpr) (x y : String),
      keyText f.1 ++ optionalMark f.2 ++ ": " ++ x =
        keyText g.1 ++ optionalMark g.2 ++ ": " ++ y ↔
      f.1 = g.1 ∧ optionalMark f.2 = optionalMark g.2 ∧ x = y := by
  -- A literal type shows the literal, so the second and the third case are one.
  have hprefix : ∀ s t x y, quote s ++ x = quote t ++ y ↔ s = t ∧ x = y := by
    intro s t x y
    refine ⟨quote_append_inj, ?_⟩
    rintro ⟨rfl, rfl⟩
    rfl
  refine ⟨fun s => ?_, fun s => ⟨?_, readFirst_quote s⟩, hprefix, hprefix, fun f g x y => ?_⟩
  · exact ⟨_, toList_quote s, (inside_flatMap s.toList).delimited⟩
  · have hread := read_write none (Textual.string s)
    rwa [write, writeAt] at hread
  · refine ⟨key_append_inj, ?_⟩
    rintro ⟨hkey, hmark, rfl⟩
    rw [hkey, hmark]

end TypeExpr

end BoundaryTypes
