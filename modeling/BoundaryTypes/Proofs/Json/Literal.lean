/-
  `Literal` — a written literal is read back, and shows where it ends.

  `readQuoted_flatMap` reads the characters of a literal up to its closing quote and
  leaves the text behind it alone. Two literals that begin the same text are
  therefore the same literal (`quoteChars_append_inj`), whatever the texts hold. Between
  the quotes stand only characters without a meaning and backslashes with the characters
  that they escape (`inside_flatMap`).

  The reader of escapes looks at more than it takes: at the next escape, which may be
  the other half of a pair, and whether the literal goes on. Where the text behind a
  literal is cut, all of this is still there, so the literal is read as before
  (`readQuoted_of_append`).
-/
import BoundaryTypes.Json.Quoted
import BoundaryTypes.Proofs.Outcome

namespace BoundaryTypes.Json

open Text

variable {opening k taken : Nat} {c d : Char} {s t u x b rest text after : List Char}

/-! ### Escapes -/

/-- The character of a unit and of the unit behind it, if that is the second half of a pair and is
not the end of the text. -/
def pairWith? (high : Nat) : List Char → Option Char
  | a :: l :: e :: f :: g :: h :: _ :: _ =>
    if a = '\\' ∧ l = 'u' then (hexNumber? [e, f, g, h]).bind (joinSurrogates? high) else none
  | _ => none

theorem pairWith?_append (high : Nat) (h : 7 ≤ s.length) :
    pairWith? high (s ++ t) = pairWith? high s := by
  match s, h with
  | _ :: _ :: _ :: _ :: _ :: _ :: _ :: _, _ => rfl

theorem length_of_pairWith? {high : Nat} (h : pairWith? high s = some c) : 7 ≤ s.length := by
  unfold pairWith? at h
  split at h
  · simp
  · cases h

/-- A unit in front of the surrogates is no half of a pair. -/
theorem pairWith?_eq_none {high : Nat} (h : high < 0xD800) (s : List Char) :
    pairWith? high s = none := by
  have hjoin : joinSurrogates? high = fun _ => none := by
    funext low
    rw [joinSurrogates?, if_neg (by omega)]
  unfold pairWith?
  split
  · rw [hjoin, Option.bind_fun_none, ite_self]
  · rfl

theorem unicodeEscape?_cons (e f g h : Char) (hs : s ≠ []) :
    unicodeEscape? (e :: f :: g :: h :: s) = (hexNumber? [e, f, g, h]).map fun unit =>
      match pairWith? unit s with
      | some joined => (joined, 10)
      | none => (unitChar unit, 4) := by
  unfold unicodeEscape?
  dsimp only
  -- No text behind the unit, a second escape behind it, or anything else.
  split
  · next hnone => rw [hnone]; rfl
  · exact absurd rfl hs
  · next high i j k l _ _ hhigh =>
    rw [hhigh, Option.map_some, pairWith?, if_pos ⟨rfl, rfl⟩]
    cases (hexNumber? [i, j, k, l]).bind (joinSurrogates? high) <;> rfl
  · next rest _ _ unit hunit _ hpair =>
    have hnone : pairWith? unit rest = none := by
      unfold pairWith?
      split
      · rw [if_neg]
        rintro ⟨rfl, rfl⟩
        exact hpair _ _ _ _ _ _ rfl
      · rfl
    rw [hunit, Option.map_some, hnone]

theorem four_le_of_unicodeEscape? (h : unicodeEscape? s = some (c, k)) : 4 ≤ k := by
  unfold unicodeEscape? at h
  repeat' split at h
  all_goals cases h; try decide

theorem unicodeEscape?_of_append (h : unicodeEscape? (s ++ t) = some (c, k)) (hk : k < s.length) :
    unicodeEscape? s = some (c, k) := by
  have hfour := four_le_of_unicodeEscape? h
  match s, Nat.lt_of_le_of_lt hfour hk with
  | d :: e :: f :: g :: a :: s, _ =>
    simp only [List.cons_append] at h
    rw [unicodeEscape?_cons d e f g (List.cons_ne_nil _ _)] at h
    rw [unicodeEscape?_cons d e f g (List.cons_ne_nil _ _)]
    obtain ⟨unit, hunit, hescape⟩ := Option.map_eq_some_iff.1 h
    rw [hunit, Option.map_some]
    rw [← List.cons_append] at hescape
    cases hpair : pairWith? unit (a :: s ++ t) with
    | some joined =>
      rw [hpair] at hescape
      cases hescape
      rw [pairWith?_append unit (by simp only [List.length_cons] at *; omega)] at hpair
      rw [hpair]
    | none =>
      rw [hpair] at hescape
      -- A pair in the shorter text would be one in the longer text.
      cases hs : pairWith? unit (a :: s) with
      | none => exact congrArg some hescape
      | some joined =>
        rw [pairWith?_append unit (length_of_pairWith? hs), hs] at hpair
        cases hpair

theorem readEscape_suffix (h : readEscape opening s = .ok (c, after)) : ∃ x, s = x ++ after := by
  cases s with
  | nil => cases h
  | cons l s =>
    simp only [readEscape] at h
    split at h
    · split at h
      · cases h
      · next taken _ =>
        cases h
        exact ⟨l :: s.take taken, by rw [List.cons_append, List.take_append_drop]⟩
    · split at h
      · cases h
      · cases h
        exact ⟨[l], rfl⟩

/-- An escape is the same where the text is cut behind it, if the literal goes on. -/
theorem readEscape_of_append {m : Nat} (h : readEscape opening (s ++ t) = .ok (c, u ++ t))
    (hu : u ≠ []) : readEscape m s = .ok (c, u) := by
  have hpos := List.length_pos_iff.2 hu
  have hlength := readEscape_length h
  rw [List.length_append, List.length_append] at hlength
  cases s with
  | nil => exact absurd hlength (by simp only [List.length_nil]; omega)
  | cons l s =>
    rw [List.cons_append] at h
    simp only [readEscape] at h ⊢
    split at h
    · next hletter =>
      rw [if_pos hletter]
      split at h
      · cases h
      · next d taken hescape =>
        simp only [Except.ok.injEq, Prod.mk.injEq] at h
        obtain ⟨rfl, hdrop⟩ := h
        have htaken := congrArg List.length hdrop
        rw [List.length_drop, List.length_append, List.length_append] at htaken
        -- Something is left of the literal, so what the escape took ended before the cut.
        have hinside : taken < s.length := by omega
        rw [List.drop_append_of_le_length (Nat.le_of_lt hinside)] at hdrop
        rw [unicodeEscape?_of_append hescape hinside]
        exact congrArg (fun v => Except.ok (d, v)) (List.append_cancel_right hdrop)
    · next hletter =>
      rw [if_neg hletter]
      split at h
      · cases h
      · simp only [Except.ok.injEq, Prod.mk.injEq] at h
        obtain ⟨rfl, hrest⟩ := h
        rw [List.append_cancel_right hrest]

/-! ### One character -/

theorem hexNumber?_hexPadded {n : Nat} (h : n < 0x100) : hexNumber? (hexPadded 4 n) = some n := by
  have h3 : hexValue? (hexDigit (n % 16)) = some (n % 16) := hexValue?_hexDigit (by omega)
  have h2 : hexValue? (hexDigit (n / 16 % 16)) = some (n / 16 % 16) := hexValue?_hexDigit (by omega)
  have h1 : hexValue? (hexDigit (n / 16 / 16 % 16)) = some 0 := by
    rw [hexValue?_hexDigit (by omega)]; congr 1; omega
  have h0 : hexValue? (hexDigit (n / 16 / 16 / 16 % 16)) = some 0 := by
    rw [hexValue?_hexDigit (by omega)]; congr 1; omega
  simp only [hexNumber?, hexPadded, List.nil_append, List.cons_append, List.foldlM_cons,
    List.foldlM_nil, h0, h1, h2, h3, Option.map_some, bind, Option.bind, pure]
  congr 1
  omega

/-- Four digits of a control character are taken alone: no control character is half a pair. -/
theorem unicodeEscape?_hexPadded {n : Nat} (h : n < 0x20) {s : List Char} (hs : s ≠ []) :
    unicodeEscape? (hexPadded 4 n ++ s) = some (Char.ofNat n, 4) := by
  obtain ⟨a, b, c, d, hd⟩ : ∃ a b c d, hexPadded 4 n = [a, b, c, d] := ⟨_, _, _, _, rfl⟩
  have hn : hexNumber? [a, b, c, d] = some n := by rw [← hd, hexNumber?_hexPadded (by omega)]
  have hhalf : isHalf n = false := by
    rw [isHalf, Bool.and_eq_false_imp, decide_eq_true_eq]
    omega
  have hu : unitChar n = Char.ofNat n := by
    unfold unitChar
    rw [hhalf, if_neg Bool.false_ne_true]
  simp only [hd, List.cons_append, List.nil_append]
  rw [unicodeEscape?_cons a b c d hs, hn, Option.map_some, pairWith?_eq_none (by omega) s, hu]

/-- A literal that begins with an escape goes on behind it. -/
theorem readQuoted_escape (h : readEscape opening s = .ok (c, after)) :
    readQuoted opening ('\\' :: s) = (readQuoted opening after).map fun p => (c :: p.1, p.2) := by
  rw [readQuoted, if_neg (by decide), if_pos rfl]
  split
  · next hread => rw [h] at hread; cases hread
  · next hread => rw [h] at hread; cases hread; rfl

/-- A character inside a literal is read back, as long as the literal goes on. -/
theorem readQuoted_quoteChar (opening : Nat) (c : Char) {s : List Char} (hs : s ≠ []) :
    readQuoted opening (quoteChar c ++ s) =
      (readQuoted opening s).map fun p => (c :: p.1, p.2) := by
  unfold quoteChar
  split
  · next l hl =>
    -- Escaped by a letter of its own, by its number, or not at all.
    have hback := unescapeLetter?_of_escapeLetter? hl
    have hu : l ≠ 'u' := by rintro rfl; cases hback
    have hread : readEscape opening (l :: s) = .ok (c, s) := by
      simp only [readEscape, if_neg hu, hback]
    exact readQuoted_escape hread
  · next hnone =>
    have hquote : c ≠ '"' := by rintro rfl; exact absurd hnone (by decide)
    have hslash : c ≠ '\\' := by rintro rfl; exact absurd hnone (by decide)
    split
    · next hlt =>
      have hread : readEscape opening ('u' :: (hexPadded 4 c.toNat ++ s)) = .ok (c, s) := by
        rw [readEscape, if_pos rfl, unicodeEscape?_hexPadded hlt hs, Char.ofNat_toNat]
        have hlen := length_hexPadded 4 c.toNat
        simp only [List.drop_append, hlen, Nat.sub_self, List.drop_zero]
        rw [List.drop_eq_nil_of_le (by omega), List.nil_append]
      exact readQuoted_escape hread
    · next hge =>
      rw [List.cons_append, List.nil_append, readQuoted, if_neg hquote, if_neg hslash, if_neg hge]

/-! ### Whole literals -/

/-- Reading a literal from after its opening quote gives its text and leaves what follows it. -/
theorem readQuoted_flatMap (opening : Nat) (s rest : List Char) :
    readQuoted opening (s.flatMap quoteChar ++ '"' :: rest) = .ok (s, rest) := by
  induction s with
  | nil => rw [List.flatMap_nil, List.nil_append, readQuoted, if_pos rfl]
  | cons c s ih =>
    rw [List.flatMap_cons, List.append_assoc, readQuoted_quoteChar opening c (by simp), ih]
    rfl

theorem quoteChars_append (s rest : List Char) :
    quoteChars s ++ rest = '"' :: (s.flatMap quoteChar ++ '"' :: rest) := by
  simp [quoteChars]

/-- Two literals that begin the same text are the same, and so are the texts behind them. -/
theorem quoteChars_append_inj {s t x y : List Char}
    (h : quoteChars s ++ x = quoteChars t ++ y) : s = t ∧ x = y := by
  rw [quoteChars_append, quoteChars_append, List.cons.injEq] at h
  have hs := readQuoted_flatMap 0 s x
  rw [h.2, readQuoted_flatMap 0 t y] at hs
  cases hs
  exact ⟨rfl, rfl⟩

theorem toList_quote (s : String) : (quote s).toList = quoteChars s.toList := String.toList_ofList

/-! ### The inside of a literal -/

/-- A character without a meaning of its own in a literal. -/
structure IsPlain (c : Char) : Prop where
  printable : 0x20 ≤ c.toNat
  ne_quote : c ≠ '"'
  ne_backslash : c ≠ '\\'

/-- What may stand between the quotes of a literal: characters without a meaning, and backslashes,
each with the character that it escapes. -/
inductive Inside : List Char → Prop
  | nil : Inside []
  | plain {s : List Char} {c : Char} (h : Inside s) (hc : IsPlain c) : Inside (s ++ [c])
  | escaped {s : List Char} {c : Char} (h : Inside s) (hc : 0x20 ≤ c.toNat) :
    Inside (s ++ ['\\', c])

theorem Inside.append_plain (h : Inside s) (ht : ∀ p ∈ t, IsPlain p) : Inside (s ++ t) := by
  induction t generalizing s with
  | nil => rwa [List.append_nil]
  | cons p t ih =>
    rw [List.forall_mem_cons] at ht
    rw [← List.singleton_append, ← List.append_assoc]
    exact ih (h.plain ht.1) ht.2

theorem isPlain_of_mem_hexPadded {width n : Nat} (h : c ∈ hexPadded width n) : IsPlain c := by
  induction width generalizing n with
  | zero => exact absurd h List.not_mem_nil
  | succ width ih =>
    rw [hexPadded, List.mem_append, List.mem_singleton] at h
    rcases h with h | rfl
    · exact ih h
    · have hdigits : ∀ m : Fin 16, 0x20 ≤ (hexDigit m.val).toNat ∧ hexDigit m.val ≠ '"' ∧
          hexDigit m.val ≠ '\\' := by decide
      obtain ⟨hprintable, hquote, hbackslash⟩ := hdigits ⟨n % 16, Nat.mod_lt n (by decide)⟩
      exact ⟨hprintable, hquote, hbackslash⟩

theorem printable_of_escapeLetter? (h : escapeLetter? c = some d) : 0x20 ≤ d.toNat := by
  unfold escapeLetter? at h
  repeat' split at h
  all_goals cases h <;> decide

/-- What stands for a character may follow anything inside a literal. -/
theorem Inside.append_quoteChar (h : Inside s) (c : Char) : Inside (s ++ quoteChar c) := by
  unfold quoteChar
  split
  · next hletter => exact h.escaped (printable_of_escapeLetter? hletter)
  · next hnone =>
    split
    · -- Behind `\u` stand digits.
      have hmark : Inside (s ++ ['\\', 'u']) := h.escaped (by decide)
      have hdigits : Inside (s ++ ['\\', 'u'] ++ hexPadded 4 c.toNat) :=
        hmark.append_plain fun p hp => isPlain_of_mem_hexPadded hp
      rwa [List.append_assoc] at hdigits
    · next hcontrol =>
      refine h.plain ⟨Nat.le_of_not_lt hcontrol, ?_, ?_⟩
      · rintro rfl
        cases hnone
      · rintro rfl
        cases hnone

theorem Inside.append_flatMap (h : Inside s) (t : List Char) :
    Inside (s ++ t.flatMap quoteChar) := by
  induction t generalizing s with
  | nil => rwa [List.flatMap_nil, List.append_nil]
  | cons c t ih =>
    rw [List.flatMap_cons, ← List.append_assoc]
    exact ih (h.append_quoteChar c)

/-- The literal of a text is such an inside between two quotes. -/
theorem inside_flatMap (s : List Char) : Inside (s.flatMap quoteChar) := Inside.nil.append_flatMap s

/-! ### Texts behind a literal -/

/-- A literal at the front of a text: its characters are read in the same way whatever is cut from
the text behind it. -/
theorem readQuoted_front (h : readQuoted opening s = .ok (text, after)) :
    ∃ x, s = x ++ after ∧
      ∀ m r b, after = r ++ b → readQuoted m (x ++ r) = .ok (text, r) := by
  fun_induction readQuoted opening s generalizing text with
  | case1 => cases h
  | case2 rest =>
    cases h
    exact ⟨['"'], rfl, fun m r _ _ => by rw [List.cons_append, readQuoted, if_pos rfl]; rfl⟩
  | case3 => cases h
  | case4 rest d more hescape _ ih =>
    obtain ⟨p, hmore, hpair⟩ := Outcome.map_eq_ok.1 h
    obtain ⟨rfl, rfl⟩ := Prod.mk.inj hpair
    obtain ⟨y, hy, hread⟩ := ih hmore
    obtain ⟨z, hz⟩ := readEscape_suffix hescape
    refine ⟨'\\' :: (z ++ y), by rw [hz, hy]; simp, ?_⟩
    intro m r b hafter
    -- The closing quote is still to come.
    have hlonger := readQuoted_length hmore
    have hyr : y ++ r ≠ [] := by
      rintro hempty
      rw [hy, hafter, ← List.append_assoc, hempty, List.length_append] at hlonger
      simp only [List.length_append, List.length_nil] at hlonger
      omega
    have hcut : readEscape m (z ++ (y ++ r)) = .ok (d, y ++ r) := by
      have hrest : rest = (z ++ (y ++ r)) ++ b := by
        rw [hz, hy, hafter, List.append_assoc, List.append_assoc]
      have hbehind : more = (y ++ r) ++ b := by rw [hy, hafter, List.append_assoc]
      rw [hrest, hbehind] at hescape
      exact readEscape_of_append hescape hyr
    rw [List.cons_append, List.append_assoc, readQuoted_escape hcut, hread m r b hafter]
    rfl
  | case5 => cases h
  | case6 c rest hquote hslash hcontrol ih =>
    obtain ⟨p, hrest, hpair⟩ := Outcome.map_eq_ok.1 h
    obtain ⟨rfl, rfl⟩ := Prod.mk.inj hpair
    obtain ⟨y, hy, hread⟩ := ih hrest
    refine ⟨c :: y, by rw [hy]; rfl, ?_⟩
    intro m r b hafter
    rw [List.cons_append, readQuoted, if_neg hquote, if_neg hslash, if_neg hcontrol,
      hread m r b hafter]
    rfl

/-- A literal is the same where the text behind it is cut. -/
theorem readQuoted_of_append (m : Nat)
    (h : readQuoted opening (x ++ (rest ++ b)) = .ok (text, rest ++ b)) :
    readQuoted m (x ++ rest) = .ok (text, rest) := by
  obtain ⟨y, hy, hread⟩ := readQuoted_front h
  rw [List.append_cancel_right hy]
  exact hread m rest b rfl

theorem readQuoted_opening (m : Nat) (h : readQuoted opening (x ++ rest) = .ok (text, rest)) :
    readQuoted m (x ++ rest) = .ok (text, rest) := by
  rw [← List.append_nil rest] at h
  exact readQuoted_of_append m h

end BoundaryTypes.Json
