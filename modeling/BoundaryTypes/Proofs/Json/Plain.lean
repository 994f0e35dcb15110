/-
  `Plain` — words and numbers at the front of a text.

  A word is one of a list, and a number has whole digits, a fraction and an exponent, each of which
  may be missing behind the first. The reader of either looks at the text behind it only to see that
  it ends. Where that text is cut, the word or number stays the same, as long as the cut is not
  inside it (`readPlain?_of_append`).
-/
import BoundaryTypes.Json.Reader

namespace BoundaryTypes.Json

open Text

variable {x b s : List Char} {v : Json} {n : Nat}

/-! ### Runs of characters -/

/-- A run of characters is the same where the text behind it is cut. -/
theorem takeWhile_of_append {p : Char → Bool} (h : ((x ++ b).takeWhile p).length ≤ x.length) :
    x.takeWhile p = (x ++ b).takeWhile p := by
  rw [List.takeWhile_append] at h ⊢
  split
  · next hall =>
    rw [if_pos hall, List.length_append] at h
    have hnone : b.takeWhile p = [] := List.eq_nil_of_length_eq_zero (by omega)
    rw [hnone, List.append_nil]
    exact (List.takeWhile_prefix p).eq_of_length hall
  · rfl

theorem length_takeWhile_le (p : Char → Bool) (s : List Char) :
    (s.takeWhile p).length ≤ s.length := (List.takeWhile_sublist p).length_le

/-! ### Words -/

/-- The words that stand for values. -/
def words : List (List Char × Json) :=
  [(['n', 'u', 'l', 'l'], .null), (['t', 'r', 'u', 'e'], .bool true),
    (['f', 'a', 'l', 's', 'e'], .bool false), (['N', 'a', 'N'], .real (0.0 / 0.0)),
    (['I', 'n', 'f', 'i', 'n', 'i', 't', 'y'], .real (1.0 / 0.0)),
    (['-', 'I', 'n', 'f', 'i', 'n', 'i', 't', 'y'], .real (-(1.0 / 0.0)))]

/-- The reader of words finds the word that stands at the front. -/
theorem readWord?_eq_some :
    readWord? s = some (v, n) ↔ ∃ w, (w, v) ∈ words ∧ w <+: s ∧ w.length = n := by
  constructor
  · intro h
    unfold readWord? at h
    split at h <;> cases h
    · exact ⟨['n', 'u', 'l', 'l'], by simp [words], ⟨_, rfl⟩, rfl⟩
    · exact ⟨['t', 'r', 'u', 'e'], by simp [words], ⟨_, rfl⟩, rfl⟩
    · exact ⟨['f', 'a', 'l', 's', 'e'], by simp [words], ⟨_, rfl⟩, rfl⟩
    · exact ⟨['N', 'a', 'N'], by simp [words], ⟨_, rfl⟩, rfl⟩
    · exact ⟨['I', 'n', 'f', 'i', 'n', 'i', 't', 'y'], by simp [words], ⟨_, rfl⟩, rfl⟩
    · exact ⟨['-', 'I', 'n', 'f', 'i', 'n', 'i', 't', 'y'], by simp [words], ⟨_, rfl⟩, rfl⟩
  · rintro ⟨w, hw, ⟨t, rfl⟩, rfl⟩
    simp only [words, List.mem_cons, Prod.mk.injEq, List.not_mem_nil, or_false] at hw
    rcases hw with ⟨rfl, rfl⟩ | ⟨rfl, rfl⟩ | ⟨rfl, rfl⟩ | ⟨rfl, rfl⟩ | ⟨rfl, rfl⟩ | ⟨rfl, rfl⟩
    all_goals rfl

/-- A word is the same where the text behind it is cut. -/
theorem readWord?_of_append (h : readWord? (x ++ b) = some (v, n)) (hn : n ≤ x.length) :
    readWord? x = some (v, n) := by
  obtain ⟨w, hw, hprefix, rfl⟩ := readWord?_eq_some.1 h
  have hprefix := List.prefix_of_prefix_length_le hprefix (List.prefix_append x b) hn
  exact readWord?_eq_some.2 ⟨w, hw, hprefix, rfl⟩

theorem readWord?_eq_none_of_append (h : readWord? (x ++ b) = none) : readWord? x = none := by
  cases hx : readWord? x with
  | none => rfl
  | some p =>
    obtain ⟨w, hw, hprefix, hlength⟩ := readWord?_eq_some.1 hx
    have hlonger := readWord?_eq_some.2 ⟨w, hw, hprefix.trans (List.prefix_append x b), hlength⟩
    rw [h] at hlonger
    cases hlonger

/-! ### Numbers -/

/-- The whole digits are the same where the text behind them is cut. -/
theorem wholeDigits_of_append (h : (wholeDigits (x ++ b)).length ≤ x.length) :
    wholeDigits x = wholeDigits (x ++ b) := by
  cases x with
  | nil => exact (List.eq_nil_of_length_eq_zero (Nat.le_zero.1 h)).symm
  | cons c x =>
    rw [List.cons_append, wholeDigits] at h ⊢
    rw [wholeDigits]
    split
    · rfl
    split
    · next hzero hdigit =>
      rw [if_neg hzero, if_pos hdigit] at h
      rw [takeWhile_of_append (Nat.le_of_succ_le_succ h)]
    · rfl

theorem length_wholeDigits_le (s : List Char) : (wholeDigits s).length ≤ s.length := by
  cases s with
  | nil => exact Nat.le_refl _
  | cons c s =>
    have hrun := length_takeWhile_le Char.isDigit s
    rw [wholeDigits]
    repeat' split
    all_goals simp; try omega

theorem fractionDigits_cons (c : Char) (s : List Char) :
    fractionDigits (c :: s) = if c = '.' then s.takeWhile Char.isDigit else [] := by
  unfold fractionDigits
  split
  · next h => cases h; rfl
  · next hpoint => rw [if_neg fun hc => hpoint s (by rw [hc])]

/-- How many characters a point and the digits after it take. -/
def pointed (fraction : List Char) : Nat := if fraction.isEmpty then 0 else fraction.length + 1

theorem length_le_of_pointed_le {fraction : List Char} (h : pointed fraction ≤ n + 1) :
    fraction.length ≤ n := by
  unfold pointed at h
  split at h
  · next hempty => simp [List.isEmpty_iff.1 hempty]
  · omega

/-- The digits behind a point are the same where the text behind them is cut. -/
theorem fractionDigits_of_append (h : pointed (fractionDigits (x ++ b)) ≤ x.length) :
    fractionDigits x = fractionDigits (x ++ b) := by
  cases x with
  | nil =>
    have hnone : (fractionDigits ([] ++ b)).isEmpty = true := by
      unfold pointed at h
      split at h
      · assumption
      · cases h
    exact (List.isEmpty_iff.1 hnone).symm
  | cons c x =>
    rw [List.cons_append, fractionDigits_cons] at h
    rw [List.cons_append, fractionDigits_cons, fractionDigits_cons]
    split
    · next hpoint =>
      rw [if_pos hpoint] at h
      exact takeWhile_of_append (length_le_of_pointed_le h)
    · rfl

theorem pointed_fractionDigits_le (s : List Char) : pointed (fractionDigits s) ≤ s.length := by
  cases s with
  | nil => exact Nat.le_refl _
  | cons c s =>
    have hrun := length_takeWhile_le Char.isDigit s
    rw [fractionDigits_cons]
    split
    · unfold pointed
      split
      · exact Nat.zero_le _
      · exact Nat.succ_le_succ hrun
    · exact Nat.zero_le _

theorem takeSign_cons (c : Char) (s : List Char) :
    Decimal.takeSign (c :: s) =
      if c = '-' then (true, s) else if c = '+' then (false, s) else (false, c :: s) := by
  unfold Decimal.takeSign
  split
  · next h => cases h; rfl
  · next h => cases h; rfl
  · next hminus hplus =>
    rw [if_neg fun hc => hminus s (by rw [hc]), if_neg fun hc => hplus s (by rw [hc])]

/-- Behind some text, more text does not change a sign. -/
theorem takeSign_append (hx : x ≠ []) :
    Decimal.takeSign (x ++ b) = ((Decimal.takeSign x).1, (Decimal.takeSign x).2 ++ b) := by
  cases x with
  | nil => exact absurd rfl hx
  | cons c x =>
    rw [List.cons_append, takeSign_cons, takeSign_cons]
    repeat' split
    all_goals rfl

theorem length_takeSign_le (s : List Char) : (Decimal.takeSign s).2.length ≤ s.length := by
  cases s with
  | nil => exact Nat.le_refl _
  | cons c s =>
    rw [takeSign_cons]
    repeat' split
    all_goals simp

/-- The digits of an exponent, with its sign, after the letter. -/
def exponentDigits (s : List Char) : List Char := (Decimal.takeSign s).2.takeWhile Char.isDigit

theorem exponent?_cons (c : Char) (s : List Char) :
    exponent? (c :: s) =
      if (c = 'e' ∨ c = 'E') ∧ exponentDigits s ≠ [] then
        some (if (Decimal.takeSign s).1 then -(Decimal.natOfDigits (exponentDigits s) : Int)
            else Decimal.natOfDigits (exponentDigits s),
          1 + (s.length - (Decimal.takeSign s).2.length) + (exponentDigits s).length)
      else none := by
  rw [exponent?, exponentDigits]
  by_cases hletter : c = 'e' ∨ c = 'E'
  · by_cases hdigits : (Decimal.takeSign s).2.takeWhile Char.isDigit = []
    · simp [hdigits]
    · simp [hletter, hdigits]
  · simp [hletter]

/-- The digits of an exponent are the same where the text behind them is cut. -/
theorem exponentDigits_of_append (hx : x ≠ [])
    (h : (exponentDigits (x ++ b)).length ≤ (Decimal.takeSign x).2.length) :
    exponentDigits x = exponentDigits (x ++ b) := by
  rw [exponentDigits, takeSign_append hx] at h
  rw [exponentDigits, exponentDigits, takeSign_append hx]
  exact takeWhile_of_append h

/-- An exponent has a letter and a digit at least. -/
theorem two_le_of_exponent? {e : Int} (h : exponent? s = some (e, n)) : 2 ≤ n := by
  cases s with
  | nil => cases h
  | cons c s =>
    rw [exponent?_cons] at h
    split at h
    · next hsome =>
      have hdigits := List.length_pos_iff.2 hsome.2
      cases h
      omega
    · cases h

/-- An exponent is the same where the text behind it is cut. -/
theorem exponent?_of_append {e : Int} (h : exponent? (x ++ b) = some (e, n)) (hn : n ≤ x.length) :
    exponent? x = some (e, n) := by
  have hlong := two_le_of_exponent? h
  -- A letter and one more character are before the cut, so the sign is, too.
  match x, hn with
  | c :: d :: y, hn =>
    have hne : d :: y ≠ [] := List.cons_ne_nil d y
    have hmore := length_takeSign_le (d :: y)
    rw [List.cons_append, exponent?_cons] at h
    split at h
    · next hsome =>
      have hsign := takeSign_append (b := b) hne
      cases h
      rw [hsign, List.length_append, List.length_append] at hn
      have hinside : (exponentDigits (d :: y ++ b)).length ≤
          (Decimal.takeSign (d :: y)).2.length := by
        simp only [List.length_cons] at *
        omega
      have hdigits := exponentDigits_of_append (b := b) hne hinside
      rw [exponent?_cons, if_pos ⟨hsome.1, hdigits ▸ hsome.2⟩, hdigits, hsign]
      simp
      omega
    · cases h
  | [_], hn => simp at hn; omega
  | [], hn => simp at hn; omega

/-- A cut makes no exponent where there was none. -/
theorem exponent?_eq_none_of_append (h : exponent? (x ++ b) = none) : exponent? x = none := by
  cases x with
  | nil => rfl
  | cons c x =>
    rw [List.cons_append, exponent?_cons] at h
    rw [exponent?_cons]
    split at h
    · cases h
    · next hnone =>
      rw [if_neg]
      -- Digits before the cut are among those of the whole text.
      rintro ⟨hletter, hdigits⟩
      have hne : x ≠ [] := by
        rintro rfl
        exact hdigits rfl
      refine hnone ⟨hletter, fun hempty => hdigits ?_⟩
      rw [exponentDigits_of_append (b := b) hne (by rw [hempty]; exact Nat.zero_le _), hempty]

theorem length_exponent?_le {e : Int} (h : exponent? s = some (e, n)) : n ≤ s.length := by
  cases s with
  | nil => cases h
  | cons c s =>
    rw [exponent?_cons] at h
    split at h
    · have hmore := length_takeSign_le s
      have hdigits : (exponentDigits s).length ≤ _ := length_takeWhile_le _ _
      cases h
      simp only [List.length_cons]
      omega
    · cases h

/-- How many characters an exponent takes. -/
def powerLength (power : Option (Int × Nat)) : Nat := (power.map (·.2)).getD 0

theorem exponent?_eq_of_append (h : powerLength (exponent? (x ++ b)) ≤ x.length) :
    exponent? x = exponent? (x ++ b) := by
  cases hpower : exponent? (x ++ b) with
  | none => exact exponent?_eq_none_of_append hpower
  | some p =>
    rw [hpower] at h
    exact exponent?_of_append hpower h

theorem powerLength_exponent?_le (s : List Char) : powerLength (exponent? s) ≤ s.length := by
  cases hpower : exponent? s with
  | none => exact Nat.zero_le _
  | some p => exact length_exponent?_le hpower

/-- The digits after the point of a number without sign. -/
def fractionOf (u : List Char) : List Char := fractionDigits (u.drop (wholeDigits u).length)

/-- The exponent of a number without sign. -/
def powerOf (u : List Char) : Option (Int × Nat) :=
  exponent? ((u.drop (wholeDigits u).length).drop (pointed (fractionOf u)))

/-- How many characters a number without sign takes. -/
def unsignedLength (u : List Char) : Nat :=
  (wholeDigits u).length + pointed (fractionOf u) + powerLength (powerOf u)

/-- A number is no longer than its text. -/
theorem unsignedLength_le (u : List Char) : unsignedLength u ≤ u.length := by
  have hwhole := length_wholeDigits_le u
  have hfraction := pointed_fractionDigits_le (u.drop (wholeDigits u).length)
  have hpower := powerLength_exponent?_le
    ((u.drop (wholeDigits u).length).drop (pointed (fractionOf u)))
  rw [List.length_drop] at hfraction
  rw [List.length_drop, List.length_drop] at hpower
  rw [unsignedLength, powerOf]
  rw [fractionOf] at *
  omega

/-- The parts of a number are the same where the text behind it is cut. -/
theorem parts_of_append (h : unsignedLength (x ++ b) ≤ x.length) :
    wholeDigits x = wholeDigits (x ++ b) ∧ fractionOf x = fractionOf (x ++ b) ∧
      powerOf x = powerOf (x ++ b) := by
  unfold unsignedLength at h
  have hwhole : wholeDigits x = wholeDigits (x ++ b) := wholeDigits_of_append (by omega)
  have hafter : (x ++ b).drop (wholeDigits (x ++ b)).length =
      x.drop (wholeDigits x).length ++ b := by
    rw [hwhole, List.drop_append_of_le_length (by omega)]
  have hlength : (x.drop (wholeDigits x).length).length =
      x.length - (wholeDigits (x ++ b)).length := by
    rw [List.length_drop, hwhole]
  -- Each part starts where the one before it ends, which is the same place in both texts.
  have hfraction : fractionOf x = fractionOf (x ++ b) := by
    rw [fractionOf, hafter] at h
    rw [fractionOf, fractionOf, hafter]
    exact fractionDigits_of_append (by omega)
  refine ⟨hwhole, hfraction, ?_⟩
  have hpointed : pointed (fractionOf x) ≤ _ := pointed_fractionDigits_le _
  rw [powerOf, hafter, ← hfraction, List.drop_append_of_le_length hpointed] at h
  rw [powerOf, powerOf, hafter, ← hfraction, List.drop_append_of_le_length hpointed]
  apply exponent?_eq_of_append
  have hleft := List.length_drop (i := pointed (fractionOf x)) (l := x.drop (wholeDigits x).length)
  omega

/-- The number with these parts. -/
def numberOf (negative : Bool) (whole fraction : List Char) (power : Option (Int × Nat)) : Json :=
  if fraction.isEmpty && power.isNone then
    let n : Int := Decimal.natOfDigits whole
    .int (if negative then -n else n)
  else
    .real (Decimal.signed negative (Decimal.nearestFloat (Decimal.natOfDigits (whole ++ fraction))
      ((power.map (·.1)).getD 0 - fraction.length)))

/-- Whether a text starts with a minus. -/
def isNegative (s : List Char) : Bool := s.head? == some '-'

/-- The text of a number without its sign. -/
def unsigned (s : List Char) : List Char := if isNegative s then s.drop 1 else s

/-- The reader of numbers by the parts of a number: a sign, whole digits, a fraction and an
exponent. -/
theorem readNumber?_eq (s : List Char) :
    readNumber? s =
      if (wholeDigits (unsigned s)).isEmpty then none
      else some (numberOf (isNegative s) (wholeDigits (unsigned s)) (fractionOf (unsigned s))
          (powerOf (unsigned s)),
        (if isNegative s then 1 else 0) + unsignedLength (unsigned s)) := by
  show (if (wholeDigits (unsigned s)).isEmpty then none else _) = _
  split
  · rfl
  · rw [unsignedLength, ← Nat.add_assoc, ← Nat.add_assoc, numberOf]
    show (if (fractionOf (unsigned s)).isEmpty && (powerOf (unsigned s)).isNone then _ else _) = _
    split
    all_goals rfl

theorem length_unsigned (s : List Char) :
    (if isNegative s then 1 else 0) + (unsigned s).length = s.length := by
  cases s with
  | nil => rfl
  | cons c s =>
    unfold unsigned
    split
    · exact Nat.add_comm 1 s.length
    · exact Nat.zero_add _

theorem isNegative_append (hx : x ≠ []) : isNegative (x ++ b) = isNegative x := by
  cases x with
  | nil => exact absurd rfl hx
  | cons c x => rfl

theorem unsigned_append (hx : x ≠ []) : unsigned (x ++ b) = unsigned x ++ b := by
  unfold unsigned
  rw [isNegative_append hx]
  split
  · exact List.drop_append_of_le_length (List.length_pos_iff.2 hx)
  · rfl

theorem readNumber?_eq_some (h : readNumber? s = some (v, n)) :
    wholeDigits (unsigned s) ≠ [] ∧
      n = (if isNegative s then 1 else 0) + unsignedLength (unsigned s) := by
  rw [readNumber?_eq] at h
  split at h
  · cases h
  · next hwhole =>
    cases h
    exact ⟨fun hempty => hwhole (List.isEmpty_iff.2 hempty), rfl⟩

theorem length_readNumber? (h : readNumber? s = some (v, n)) : 0 < n ∧ n ≤ s.length := by
  obtain ⟨hwhole, hn⟩ := readNumber?_eq_some h
  have hpos := List.length_pos_iff.2 hwhole
  have hle := unsignedLength_le (unsigned s)
  have hlength := length_unsigned s
  have hparts : (wholeDigits (unsigned s)).length ≤ unsignedLength (unsigned s) := by
    unfold unsignedLength
    omega
  omega

/-- A number is the same where the text behind it is cut. -/
theorem readNumber?_of_append (h : readNumber? (x ++ b) = some (v, n)) (hn : n ≤ x.length) :
    readNumber? x = some (v, n) := by
  have hpos := (length_readNumber? h).1
  have hx : x ≠ [] := List.length_pos_iff.1 (by omega)
  have hlength := (readNumber?_eq_some h).2
  have hleft := length_unsigned x
  rw [isNegative_append hx, unsigned_append hx] at hlength
  obtain ⟨hwhole, hfraction, hpower⟩ := parts_of_append (x := unsigned x) (b := b) (by omega)
  rw [readNumber?_eq, unsignedLength, hwhole, hfraction, hpower]
  rw [readNumber?_eq, isNegative_append hx, unsigned_append hx, unsignedLength] at h
  exact h

/-! ### Words and numbers -/

theorem readPlain?_eq_some :
    readPlain? s = some (v, n) ↔
      readWord? s = some (v, n) ∨ readWord? s = none ∧ readNumber? s = some (v, n) := by
  rw [readPlain?]
  cases readWord? s <;> simp

/-- A word or a number takes a character at least, and none that is not there. -/
theorem length_readPlain? (h : readPlain? s = some (v, n)) : 0 < n ∧ n ≤ s.length := by
  rcases readPlain?_eq_some.1 h with hword | ⟨-, hnumber⟩
  · obtain ⟨w, hw, hprefix, rfl⟩ := readWord?_eq_some.1 hword
    have hwords : ∀ entry ∈ words, 0 < entry.1.length := by simp [words]
    exact ⟨hwords _ hw, hprefix.length_le⟩
  · exact length_readNumber? hnumber

/-- A word or a number is the same where the text behind it is cut. -/
theorem readPlain?_of_append (h : readPlain? (x ++ b) = some (v, n)) (hn : n ≤ x.length) :
    readPlain? x = some (v, n) := by
  rw [readPlain?_eq_some] at h ⊢
  rcases h with hword | ⟨hnone, hnumber⟩
  · exact .inl (readWord?_of_append hword hn)
  · exact .inr ⟨readWord?_eq_none_of_append hnone, readNumber?_of_append hnumber hn⟩

/-- The characters that begin words and numbers, besides the digits. -/
def plainOpenings : List Char := ['-', 'n', 't', 'f', 'N', 'I']

/-- What opens neither a word nor a number is not read as one. -/
theorem readPlain?_eq_none {c : Char} (hdigit : c.isDigit = false) (hc : c ∉ plainOpenings) :
    readPlain? (c :: s) = none := by
  cases h : readPlain? (c :: s) with
  | none => rfl
  | some p =>
    -- Every word begins with one of these characters, and a number with a minus or a digit.
    rcases readPlain?_eq_some.1 h with hword | ⟨-, hnumber⟩
    · obtain ⟨w, hw, ⟨t, ht⟩, -⟩ := readWord?_eq_some.1 hword
      have hwords : ∀ entry ∈ words, ∃ d ∈ plainOpenings, ∃ u, entry.1 = d :: u := by
        simp [words, plainOpenings]
      obtain ⟨d, hd, u, hu⟩ := hwords _ hw
      subst hu
      cases ht
      exact absurd hd hc
    · have hminus : isNegative (c :: s) = false := by
        have hne : c ≠ '-' := fun h => hc (by simp [h, plainOpenings])
        simp [isNegative, hne]
      have hwhole := (readNumber?_eq_some hnumber).1
      rw [unsigned, hminus, if_neg Bool.false_ne_true, wholeDigits] at hwhole
      rw [if_neg, hdigit, if_neg Bool.false_ne_true] at hwhole
      · exact absurd rfl hwhole
      · rintro rfl
        cases hdigit

/-- Neither a list nor an object is a word or a number. -/
theorem not_object_of_readPlain? (h : readPlain? s = some (v, n)) (members : List (String × Json)) :
    v ≠ .object members := by
  rcases readPlain?_eq_some.1 h with hword | ⟨-, hnumber⟩
  · obtain ⟨w, hw, -⟩ := readWord?_eq_some.1 hword
    have hwords : ∀ entry ∈ words, entry.2 ≠ .object members := by simp [words]
    exact hwords _ hw
  · rw [readNumber?_eq, numberOf] at hnumber
    rintro rfl
    repeat' split at hnumber
    all_goals cases hnumber

end BoundaryTypes.Json
