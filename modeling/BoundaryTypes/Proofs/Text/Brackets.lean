/-
  `Brackets` — texts whose brackets nest and whose literals are closed.

  A scan reads a text from the left and keeps the brackets that must still be closed, the
  innermost first. Between double quotes it looks only for the closing quote. It stops at a
  bracket that closes another one than the innermost, at a line feed in a literal, and at every
  other control character. A text is balanced if a scan comes to its end with nothing left open.

  A scan of a piece of a text does not depend on what is open around it (`Takes.frame`), so a
  text is balanced if it is put together from balanced pieces (`Balanced.append`) and from pieces
  that open and close brackets around them (`Balanced.between`). A literal is such a piece,
  whatever the text is that it stands for (`balanced_quote`).
-/
import BoundaryTypes.Proofs.Json.Literal

namespace BoundaryTypes

namespace Text

/-! ### Scans -/

/-- The bracket that closes an opening one. -/
def closer? (c : Char) : Option Char :=
  if c = '(' then some ')'
  else if c = '[' then some ']'
  else if c = '\x7b' then some '\x7d'
  else none

/-- Where a scan is: outside the literals, in a literal, or in one behind a backslash. -/
inductive Spot where
  | outside
  | literal
  | escape
deriving DecidableEq, Repr

/-- How far a scan has come. -/
structure Scan where
  /-- The brackets that must follow to close the open ones, the innermost first. -/
  awaited : List Char
  spot : Spot
deriving DecidableEq, Repr

namespace Scan

/-- A scan reads a character. -/
def step : Scan → Char → Option Scan
  | ⟨awaited, spot⟩, c =>
    -- Of the control characters only a line feed is read, and that not in a literal.
    if c.toNat < 0x20 ∧ (c ≠ '\n' ∨ spot ≠ .outside) then none
    else
      match spot with
      | .outside =>
        if c = '"' then some ⟨awaited, .literal⟩
        else if c ∈ [')', ']', '\x7d'] then
          if awaited.head? = some c then some ⟨awaited.tail, .outside⟩ else none
        else some ⟨(closer? c).toList ++ awaited, .outside⟩
      | .literal =>
        some ⟨awaited, if c = '"' then .outside else if c = '\\' then .escape else .literal⟩
      | .escape => some ⟨awaited, .literal⟩

/-- A scan reads a text. -/
def run (s : Scan) : List Char → Option Scan
  | [] => some s
  | c :: rest => (s.step c).bind fun t => t.run rest

/-- The same scan in further brackets. -/
def within (s : Scan) (outer : List Char) : Scan := { s with awaited := s.awaited ++ outer }

variable {s t u : Scan} {c : Char} {x y outer awaited : List Char} {spot : Spot}

@[simp]
theorem within_mk : (Scan.mk awaited spot).within outer = ⟨awaited ++ outer, spot⟩ := rfl

/-- A scan runs over its first character, and then over the rest. -/
theorem run_cons_eq_some : s.run (c :: x) = some u ↔ ∃ t, s.step c = some t ∧ t.run x = some u :=
  Option.bind_eq_some_iff

/-- Scans follow each other. -/
theorem run_append (hx : s.run x = some t) (hy : t.run y = some u) : s.run (x ++ y) = some u := by
  induction x generalizing s with
  | nil =>
    cases hx
    exact hy
  | cons c x ih =>
    obtain ⟨next, hnext, hx⟩ := run_cons_eq_some.1 hx
    exact run_cons_eq_some.2 ⟨next, hnext, ih hx⟩

/-- More brackets awaited outside change nothing of a step. -/
theorem step_within (h : s.step c = some t) : (s.within outer).step c = some (t.within outer) := by
  obtain ⟨awaited, spot⟩ := s
  rw [within_mk]
  simp only [step] at h ⊢
  split at h
  · cases h
  · next hcontrol =>
    rw [if_neg hcontrol]
    cases spot with
    | outside =>
      dsimp only at h ⊢
      split at h
      · next hquote =>
        cases h
        exact if_pos hquote
      · next hquote =>
        rw [if_neg hquote]
        split at h
        · next hcloser =>
          rw [if_pos hcloser]
          split at h
          · -- The bracket that is closed is one of the inner ones.
            next hhead =>
            cases h
            obtain ⟨rest, rfl⟩ := List.head?_eq_some_iff.1 hhead
            exact if_pos rfl
          · cases h
        · next hcloser =>
          cases h
          rw [if_neg hcloser, within_mk, List.append_assoc]
    | literal =>
      cases h
      rfl
    | escape =>
      cases h
      rfl

/-- What is open around a text makes no difference to a scan that reads it. -/
theorem run_within (h : s.run x = some t) : (s.within outer).run x = some (t.within outer) := by
  induction x generalizing s with
  | nil =>
    cases h
    rfl
  | cons c x ih =>
    obtain ⟨next, hnext, hx⟩ := run_cons_eq_some.1 h
    exact run_cons_eq_some.2 ⟨next.within outer, step_within hnext, ih hx⟩

/-- Characters that leave a scan as it is may be repeated. -/
theorem run_of_forall_step (h : ∀ c ∈ x, s.step c = some s) : s.run x = some s := by
  induction x with
  | nil => rfl
  | cons c x ih =>
    rw [List.forall_mem_cons] at h
    exact run_cons_eq_some.2 ⟨s, h.1, ih h.2⟩

/-- A line feed is the only control character that a scan reads. -/
theorem legible_of_step (h : s.step c = some t) : 0x20 ≤ c.toNat ∨ c = '\n' := by
  obtain ⟨awaited, spot⟩ := s
  simp only [step] at h
  split at h
  · cases h
  · next hcontrol =>
    rcases Nat.lt_or_ge c.toNat 0x20 with hlt | hge
    · exact .inr (Decidable.byContradiction fun hne => hcontrol ⟨hlt, .inl hne⟩)
    · exact .inl hge

/-- A scan comes through legible characters only. -/
theorem legible_of_run (h : s.run x = some t) : ∀ c ∈ x, 0x20 ≤ c.toNat ∨ c = '\n' := by
  induction x generalizing s with
  | nil => exact fun c hc => absurd hc List.not_mem_nil
  | cons c x ih =>
    obtain ⟨next, hnext, hx⟩ := run_cons_eq_some.1 h
    exact List.forall_mem_cons.2 ⟨legible_of_step hnext, ih hx⟩

end Scan

/-! ### Pieces of a text -/

/-- A scan outside the literals that awaits the brackets `before` reads the text, and then awaits
the brackets `after`, again outside the literals. -/
def Takes (before : List Char) (text : String) (after : List Char) : Prop :=
  (Scan.mk before .outside).run text.toList = some ⟨after, .outside⟩

instance (before : List Char) (text : String) (after : List Char) :
    Decidable (Takes before text after) :=
  inferInstanceAs (Decidable ((Scan.mk before .outside).run text.toList = some ⟨after, .outside⟩))

/-- A text that closes its brackets in the order that nests them, and its literals on their
lines. -/
def Balanced (text : String) : Prop := Takes [] text []

instance : DecidablePred Balanced := fun text => inferInstanceAs (Decidable (Takes [] text []))

example : Balanced "(\x7b a: [\")\"] \x7d)" ∧ ¬ Balanced "([)]" ∧ ¬ Balanced "\"\n\"" := by decide

variable {s t : String} {a b c outer : List Char} {pieces : List String}

theorem Takes.append (hs : Takes a s b) (ht : Takes b t c) : Takes a (s ++ t) c := by
  rw [Takes, String.toList_append]
  exact Scan.run_append hs ht

/-- Brackets awaited outside are left alone. -/
theorem Takes.frame (h : Takes a s b) : Takes (a ++ outer) s (b ++ outer) := Scan.run_within h

theorem Balanced.takes (h : Balanced s) (outer : List Char) : Takes outer s outer := h.frame

/-- Balanced texts follow each other. -/
theorem Balanced.append (hs : Balanced s) (ht : Balanced t) : Balanced (s ++ t) :=
  Takes.append hs ht

/-- A balanced text may stand between a text that opens brackets and one that closes them. -/
theorem Balanced.between {before after : String} (h : Balanced s) (opened : List Char)
    (hbefore : Takes [] before opened) (hafter : Takes opened after []) :
    Balanced (before ++ s ++ after) :=
  (hbefore.append (h.takes opened)).append hafter

/-- Balanced texts can be joined. -/
theorem balanced_join (h : ∀ piece ∈ pieces, Balanced piece) : Balanced (String.join pieces) := by
  induction pieces with
  | nil => decide
  | cons piece pieces ih =>
    rw [List.forall_mem_cons] at h
    rw [String.join_cons]
    exact h.1.append (ih h.2)

/-- Balanced texts can be joined with one between them. -/
theorem balanced_intercalate (hs : Balanced s) (h : ∀ piece ∈ pieces, Balanced piece) :
    Balanced (s.intercalate pieces) := by
  induction pieces with
  | nil => exact (by decide : Balanced "")
  | cons piece pieces ih =>
    rw [List.forall_mem_cons] at h
    -- The last piece has no separator behind it.
    cases pieces with
    | nil =>
      rw [String.intercalate_singleton]
      exact h.1
    | cons other pieces =>
      rw [String.intercalate_cons_cons]
      exact (h.1.append hs).append (ih h.2)

/-! ### Characters that a scan passes -/

/-- Characters without a meaning for a scan outside the literals. -/
theorem Scan.step_outside {awaited : List Char} {c : Char} (hcontrol : 0x20 ≤ c.toNat ∨ c = '\n')
    (hmark : c ∉ ['"', '(', ')', '[', ']', '\x7b', '\x7d']) :
    (Scan.mk awaited .outside).step c = some ⟨awaited, .outside⟩ := by
  simp only [List.mem_cons, List.not_mem_nil, or_false, not_or] at hmark
  obtain ⟨hquote, hround, hround', hsquare, hsquare', hcurly, hcurly'⟩ := hmark
  -- The four questions of a step are answered with no, one after another.
  have hread : ¬(c.toNat < 0x20 ∧ (c ≠ '\n' ∨ Spot.outside ≠ .outside)) := by
    rintro ⟨hlt, hfeed | hspot⟩
    · exact hcontrol.elim (Nat.not_le_of_lt hlt) hfeed
    · exact hspot rfl
  have hopens : closer? c = none := by
    rw [closer?, if_neg hround, if_neg hsquare, if_neg hcurly]
  have hcloses : c ∉ [')', ']', '\x7d'] := by
    simp only [List.mem_cons, List.not_mem_nil, or_false, not_or]
    exact ⟨hround', hsquare', hcurly'⟩
  simp only [step]
  rw [if_neg hread, if_neg hquote, if_neg hcloses, hopens]
  rfl

/-- Characters without a meaning for a scan in a literal. -/
theorem Scan.step_literal {awaited : List Char} {c : Char} (hcontrol : 0x20 ≤ c.toNat)
    (hquote : c ≠ '"') (hescape : c ≠ '\\') :
    (Scan.mk awaited .literal).step c = some ⟨awaited, .literal⟩ := by
  simp only [step]
  rw [if_neg fun h => Nat.not_le_of_lt h.1 hcontrol, if_neg hquote, if_neg hescape]

/-! ### Literals -/

/-- A scan in a literal stays there until the closing quote. -/
theorem run_inside {awaited s : List Char} (h : Json.Inside s) :
    (Scan.mk awaited .literal).run s = some ⟨awaited, .literal⟩ := by
  induction h with
  | nil => rfl
  | plain _ hc ih =>
    have hstep : (Scan.mk awaited .literal).step _ = some ⟨awaited, .literal⟩ :=
      Scan.step_literal hc.printable hc.ne_quote hc.ne_backslash
    exact Scan.run_append ih (Scan.run_cons_eq_some.2 ⟨_, hstep, rfl⟩)
  | @escaped s c _ hc ih =>
    have hstep : (Scan.mk awaited .escape).step c = some ⟨awaited, .literal⟩ :=
      if_neg fun h => Nat.not_le_of_lt h.1 hc
    refine Scan.run_append ih (Scan.run_cons_eq_some.2 ⟨_, rfl, ?_⟩)
    exact Scan.run_cons_eq_some.2 ⟨_, hstep, rfl⟩

/-- **A literal is balanced**, whatever the text is that it stands for. -/
theorem balanced_quote (s : String) : Balanced (Json.quote s) := by
  have hinside : (Scan.mk [] .literal).run (s.toList.flatMap Json.quoteChar) =
      some ⟨[], .literal⟩ := run_inside (Json.inside_flatMap s.toList)
  rw [Balanced, Takes, Json.toList_quote, Json.quoteChars]
  exact Scan.run_cons_eq_some.2 ⟨_, rfl, Scan.run_append hinside rfl⟩

/-! ### Legible texts -/

/-- A text without control characters other than line feeds. -/
def Legible (s : String) : Prop := ∀ c ∈ s.toList, 0x20 ≤ c.toNat ∨ c = '\n'

theorem Balanced.legible (h : Balanced s) : Legible s := Scan.legible_of_run h

theorem Legible.not_mem_return (h : Legible s) : '\r' ∉ s.toList := by
  intro hmem
  exact absurd (h _ hmem) (by decide)

end Text

end BoundaryTypes
