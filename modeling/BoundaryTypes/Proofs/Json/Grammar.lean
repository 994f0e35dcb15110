/-
  `Grammar` — the texts that the reader takes for values.

  `Reads p x rest` says that the characters `x` are a value, the rest of a list, a member or the
  rest of an object, when `rest` stands behind them. What stands behind counts, since a number
  or a word goes on as far as it can. The reader takes exactly these texts (`readFirst_iff`), and
  they stay what they are where the text behind them is cut (`Reads.cut`). So what the reader
  takes from the front of a text is a document on its own (`readWhole_of_readFirst`).
-/
import Mathlib.Data.List.TakeWhile
import BoundaryTypes.Proofs.Json.Document
import BoundaryTypes.Proofs.Json.Plain
import BoundaryTypes.Proofs.Outcome

namespace BoundaryTypes.Json

variable {x y s t u rest after blanks blanks' name text : List Char} {v : Json} {vs : List Json}
  {m : String × Json} {ms : List (String × Json)} {taken : Nat}

/-! ### The grammar -/

/-- A text of blanks. -/
def Blanks (s : List Char) : Prop := ∀ c ∈ s, isJsonBlank c = true

/-- What is read from a text. -/
inductive Part where
  | value (v : Json)
  /-- The elements of a list up to its bracket. -/
  | elements (vs : List Json)
  | member (m : String × Json)
  /-- The members of an object up to its brace. -/
  | members (ms : List (String × Json))

/-- The characters `x` are read as a part, when `rest` stands behind them. -/
inductive Reads : Part → List Char → List Char → Prop
  | text {x rest text : List Char} (h : readQuoted 0 (x ++ rest) = .ok (text, rest)) :
    Reads (.value (.string (String.ofList text))) ('"' :: x) rest
  | plain {x rest : List Char} {v : Json} (h : readPlain? (x ++ rest) = some (v, x.length)) :
    Reads (.value v) x rest
  | noElements {blanks rest : List Char} (hblanks : Blanks blanks) :
    Reads (.value (.array [])) ('[' :: (blanks ++ [']'])) rest
  | array {blanks x rest : List Char} {vs : List Json} (hblanks : Blanks blanks)
    (h : Reads (.elements vs) x rest) : Reads (.value (.array vs)) ('[' :: (blanks ++ x)) rest
  | noMembers {blanks rest : List Char} (hblanks : Blanks blanks) :
    Reads (.value (.object [])) ('\x7b' :: (blanks ++ ['\x7d'])) rest
  | object {blanks x rest : List Char} {ms : List (String × Json)} (hblanks : Blanks blanks)
    (h : Reads (.members ms) x rest) :
    Reads (.value (.object (gatherMembers ms))) ('\x7b' :: (blanks ++ x)) rest
  | last {x blanks rest : List Char} {v : Json} (hv : Reads (.value v) x (blanks ++ ']' :: rest))
    (hblanks : Blanks blanks) : Reads (.elements [v]) (x ++ (blanks ++ [']'])) rest
  | more {x blanks blanks' y rest : List Char} {v : Json} {vs : List Json}
    (hv : Reads (.value v) x (blanks ++ ',' :: (blanks' ++ (y ++ rest))))
    (hblanks : Blanks blanks) (hblanks' : Blanks blanks') (h : Reads (.elements vs) y rest) :
    Reads (.elements (v :: vs)) (x ++ (blanks ++ ',' :: (blanks' ++ y))) rest
  | member {x blanks blanks' y rest name : List Char} {v : Json}
    (hname : readQuoted 0 (x ++ (blanks ++ ':' :: (blanks' ++ (y ++ rest)))) =
      .ok (name, blanks ++ ':' :: (blanks' ++ (y ++ rest))))
    (hblanks : Blanks blanks) (hblanks' : Blanks blanks') (hv : Reads (.value v) y rest) :
    Reads (.member (String.ofList name, v)) ('"' :: (x ++ (blanks ++ ':' :: (blanks' ++ y)))) rest
  | lastMember {x blanks rest : List Char} {m : String × Json}
    (hm : Reads (.member m) x (blanks ++ '\x7d' :: rest)) (hblanks : Blanks blanks) :
    Reads (.members [m]) (x ++ (blanks ++ ['\x7d'])) rest
  | moreMembers {x blanks blanks' y rest : List Char} {m : String × Json}
    {ms : List (String × Json)}
    (hm : Reads (.member m) x (blanks ++ ',' :: (blanks' ++ (y ++ rest))))
    (hblanks : Blanks blanks) (hblanks' : Blanks blanks') (h : Reads (.members ms) y rest) :
    Reads (.members (m :: ms)) (x ++ (blanks ++ ',' :: (blanks' ++ y))) rest

/-- What is cut from the text behind a part makes no difference to it. -/
theorem Reads.cut {p : Part} {b : List Char} (h : Reads p x after) (hafter : after = rest ++ b) :
    Reads p x rest := by
  induction h generalizing rest with
  | text h =>
    subst hafter
    exact .text (readQuoted_of_append 0 h)
  | plain h =>
    -- A number ends before the cut already, so the cut cannot end it any sooner.
    subst hafter
    rw [← List.append_assoc] at h
    exact .plain (readPlain?_of_append h (by simp))
  | noElements hblanks => exact .noElements hblanks
  | array hblanks _ ih => exact .array hblanks (ih hafter)
  | noMembers hblanks => exact .noMembers hblanks
  | object hblanks _ ih => exact .object hblanks (ih hafter)
  | last _ hblanks ih =>
    subst hafter
    exact .last (ih (by simp)) hblanks
  | more _ hblanks hblanks' _ ihv ih =>
    subst hafter
    exact .more (ihv (by simp)) hblanks hblanks' (ih rfl)
  | @member x blanks blanks' y _ name v hname hblanks hblanks' _ ih =>
    subst hafter
    have hsplit : blanks ++ ':' :: (blanks' ++ (y ++ (rest ++ b))) =
        (blanks ++ ':' :: (blanks' ++ (y ++ rest))) ++ b := by simp
    rw [hsplit] at hname
    exact .member (readQuoted_of_append 0 hname) hblanks hblanks' (ih rfl)
  | lastMember _ hblanks ih =>
    subst hafter
    exact .lastMember (ih (by simp)) hblanks
  | moreMembers _ hblanks hblanks' _ ihm ih =>
    subst hafter
    exact .moreMembers (ihm (by simp)) hblanks hblanks' (ih rfl)

/-! ### How parts begin and end -/

/-- A character that begins a value. -/
def Begins (c : Char) : Prop := c.isDigit = true ∨ c ∈ '"' :: '[' :: '\x7b' :: plainOpenings

theorem begins_of_readPlain? {c : Char} {n : Nat} (h : readPlain? (c :: s) = some (v, n)) :
    Begins c := by
  cases hdigit : c.isDigit with
  | true => exact .inl hdigit
  | false =>
    by_cases hc : c ∈ plainOpenings
    · exact .inr (by simp [hc])
    · rw [readPlain?_eq_none hdigit hc] at h
      cases h

/-- No mark of a list or an object begins a value, but for the opening ones. -/
theorem Begins.ne {c d : Char} (h : Begins c) (hdigit : d.isDigit = false)
    (hd : d ∉ '"' :: '[' :: '\x7b' :: plainOpenings) : c ≠ d := by
  rintro rfl
  rcases h with h | h
  · rw [h] at hdigit
    cases hdigit
  · exact hd h

theorem isJsonBlank_of_begins {c : Char} (h : Begins c) : isJsonBlank c = false := by
  have hspace := h.ne (d := ' ') (by decide) (by decide)
  have htab := h.ne (d := '\t') (by decide) (by decide)
  have hnewline := h.ne (d := '\n') (by decide) (by decide)
  have hreturn := h.ne (d := '\r') (by decide) (by decide)
  simp [isJsonBlank, hspace, htab, hnewline, hreturn]

/-- Every part begins with a character that begins a value: a member begins with a quote. -/
theorem Reads.begins {p : Part} (h : Reads p x rest) : ∃ c t, x = c :: t ∧ Begins c := by
  have here : ∀ c ∈ '"' :: '[' :: '\x7b' :: plainOpenings, Begins c := fun c hc => .inr hc
  -- Words and numbers are left to their reader; all other parts begin with a sign.
  induction h with
  | @plain x rest v h =>
    have hpos := (length_readPlain? h).1
    cases x with
    | nil => exact absurd hpos (Nat.lt_irrefl 0)
    | cons c t => exact ⟨c, t, rfl, begins_of_readPlain? h⟩
  | last _ _ ih | lastMember _ _ ih =>
    obtain ⟨c, t, rfl, hc⟩ := ih
    exact ⟨c, _, rfl, hc⟩
  | more _ _ _ _ ih _ | moreMembers _ _ _ _ ih _ =>
    obtain ⟨c, t, rfl, hc⟩ := ih
    exact ⟨c, _, rfl, hc⟩
  | _ => exact ⟨_, _, rfl, here _ (by simp)⟩

/-- Blanks before a part are skipped, and none of the part itself. -/
theorem Reads.skipBlank_eq {p : Part} (h : Reads p x rest) (hblanks : Blanks blanks) :
    skipBlank (blanks ++ (x ++ rest)) = x ++ rest := by
  obtain ⟨c, t, rfl, hc⟩ := h.begins
  rw [skipBlank_append hblanks, List.cons_append, skipBlank_cons (isJsonBlank_of_begins hc)]

/-- A part does not begin with a mark that ends lists or objects or divides their entries. -/
theorem Reads.ne_cons {p : Part} {d : Char} (h : Reads p x rest) (hdigit : d.isDigit = false)
    (hd : d ∉ '"' :: '[' :: '\x7b' :: plainOpenings) (u : List Char) : x ++ rest ≠ d :: u := by
  obtain ⟨c, t, rfl, hc⟩ := h.begins
  exact fun heq => hc.ne hdigit hd (List.cons.inj heq).1

/-! ### The reader takes these texts -/

/-- The reader takes a part from the front of a text and leaves a rest. -/
def Takes : Part → List Char → List Char → Prop
  | .value v, s, rest => readFirst s = .ok (v, rest)
  | .elements vs, s, rest => readFirstElements s = .ok (vs, rest)
  | .member m, s, rest => readFirstMembers s = membersFrom m rest
  | .members ms, s, rest => readFirstMembers s = .ok (ms, rest)

theorem skipBlank_mark {c : Char} (hblanks : Blanks blanks) (hc : isJsonBlank c = false) :
    skipBlank (blanks ++ c :: rest) = c :: rest := by
  rw [skipBlank_append hblanks, skipBlank_cons hc]

/-- A word or a number is read as a value. -/
theorem readFirst_readPlain? (h : readPlain? (x ++ rest) = some (v, x.length)) :
    readFirst (x ++ rest) = .ok (v, rest) := by
  have hpos := (length_readPlain? h).1
  cases x with
  | nil => exact absurd hpos (Nat.lt_irrefl 0)
  | cons c t =>
    have hother : ∀ d : Char, d.isDigit = false → d ∉ plainOpenings → c ≠ d := by
      rintro d hdigit hd rfl
      rw [List.cons_append, readPlain?_eq_none hdigit hd] at h
      cases h
    have hc : c ≠ '"' ∧ c ≠ '[' ∧ c ≠ '\x7b' :=
      ⟨hother _ (by decide) (by decide), hother _ (by decide) (by decide),
        hother _ (by decide) (by decide)⟩
    have hread := readFirst_plain hc h
    rw [List.length_cons, Nat.add_sub_cancel, List.append_eq, List.drop_left] at hread
    exact hread

/-- What the grammar reads, the reader takes, with the same text left. -/
theorem Reads.takes {p : Part} (h : Reads p x rest) : Takes p (x ++ rest) rest := by
  induction h with
  | text h => exact readFirst_quoted (readQuoted_opening _ h)
  | plain h => exact readFirst_readPlain? h
  | noElements hblanks =>
    apply readFirst_array_nil
    rw [List.append_eq, List.append_assoc]
    exact skipBlank_mark hblanks (by decide)
  | array hblanks h ih =>
    -- Elements begin with a value, so the list is not closed at once.
    apply readFirst_array
    all_goals rw [List.append_eq, List.append_assoc, h.skipBlank_eq hblanks]
    · exact h.ne_cons (by decide) (by decide)
    · exact ih
  | noMembers hblanks =>
    apply readFirst_object_nil
    rw [List.append_eq, List.append_assoc]
    exact skipBlank_mark hblanks (by decide)
  | object hblanks h ih =>
    apply readFirst_object
    all_goals rw [List.append_eq, List.append_assoc, h.skipBlank_eq hblanks]
    · exact h.ne_cons (by decide) (by decide)
    · exact ih
  | last _ hblanks ih =>
    rw [List.append_assoc, List.append_assoc]
    exact readFirstElements_last ih (skipBlank_mark hblanks (by decide))
  | more _ hblanks hblanks' h ihv ih =>
    simp only [List.append_assoc, List.cons_append]
    apply readFirstElements_cons ihv (skipBlank_mark hblanks (by decide))
    rw [h.skipBlank_eq hblanks']
    exact ih
  | member hname hblanks hblanks' h ih =>
    simp only [List.append_assoc, List.cons_append]
    apply readFirstMembers_eq (readQuoted_opening _ hname) (skipBlank_mark hblanks (by decide))
    rw [h.skipBlank_eq hblanks']
    exact ih
  | lastMember _ hblanks ih =>
    rw [List.append_assoc, List.append_assoc]
    exact ih.trans (membersFrom_last (skipBlank_mark hblanks (by decide)))
  | moreMembers _ hblanks hblanks' h ihm ih =>
    simp only [List.append_assoc, List.cons_append]
    apply ihm.trans
    apply membersFrom_cons (skipBlank_mark hblanks (by decide))
    rw [h.skipBlank_eq hblanks']
    exact ih

/-! ### Texts with a part at the front -/

/-- A text has a part at its front. -/
def Front (p : Part) (s rest : List Char) : Prop := ∃ x, s = x ++ rest ∧ Reads p x rest

/-- A text is its blanks and what they are skipped for. -/
theorem exists_blanks (s : List Char) : ∃ blanks, Blanks blanks ∧ s = blanks ++ skipBlank s :=
  ⟨s.takeWhile isJsonBlank, List.all_eq_true.1 List.all_takeWhile,
    List.takeWhile_append_dropWhile.symm⟩

/-- A text is blanks, a mark and what is behind the mark. -/
theorem exists_mark {c : Char} (h : skipBlank s = c :: t) :
    ∃ blanks, Blanks blanks ∧ s = blanks ++ c :: t := by
  obtain ⟨blanks, hblanks, hs⟩ := exists_blanks s
  exact ⟨blanks, hblanks, h ▸ hs⟩

/-- A text is blanks, a part and what is behind the part. -/
theorem Front.exists_reads {p : Part} (h : Front p (skipBlank s) rest) :
    ∃ blanks x, Blanks blanks ∧ s = blanks ++ (x ++ rest) ∧ Reads p x rest := by
  obtain ⟨x, hx, hreads⟩ := h
  obtain ⟨blanks, hblanks, hs⟩ := exists_blanks s
  exact ⟨blanks, x, hblanks, hx ▸ hs, hreads⟩

theorem front_text (h : readQuoted taken s = .ok (text, rest)) :
    Front (.value (.string (String.ofList text))) ('"' :: s) rest := by
  obtain ⟨x, rfl, hread⟩ := readQuoted_front h
  exact ⟨'"' :: x, rfl, .text (hread 0 rest [] (List.append_nil rest).symm)⟩

theorem front_plain {c : Char} (h : readPlain? (c :: t) = some (v, taken)) :
    Front (.value v) (c :: t) (t.drop (taken - 1)) := by
  obtain ⟨hpos, hle⟩ := length_readPlain? h
  obtain ⟨k, rfl⟩ := Nat.exists_eq_add_one.2 hpos
  have hlength : (c :: t.take k).length = k + 1 := by
    rw [List.length_cons] at hle ⊢
    rw [List.length_take]
    omega
  have hsplit : c :: t = (c :: t.take k) ++ t.drop k := by
    rw [List.cons_append, List.take_append_drop]
  refine ⟨c :: t.take k, hsplit, .plain ?_⟩
  rw [Nat.add_sub_cancel, ← hsplit, hlength]
  exact h

theorem front_noElements (h : skipBlank t = ']' :: rest) :
    Front (.value (.array [])) ('[' :: t) rest := by
  obtain ⟨blanks, hblanks, rfl⟩ := exists_mark h
  exact ⟨_, by simp, .noElements hblanks⟩

/-- Brackets around elements make a list. -/
theorem Front.array (h : Front (.elements vs) (skipBlank t) rest) :
    Front (.value (.array vs)) ('[' :: t) rest := by
  obtain ⟨blanks, x, hblanks, rfl, hreads⟩ := h.exists_reads
  exact ⟨_, by simp, .array hblanks hreads⟩

theorem front_noMembers (h : skipBlank t = '\x7d' :: rest) :
    Front (.value (.object [])) ('\x7b' :: t) rest := by
  obtain ⟨blanks, hblanks, rfl⟩ := exists_mark h
  exact ⟨_, by simp, .noMembers hblanks⟩

/-- Braces around members make an object, in which a repeated name has its last value. -/
theorem Front.object (h : Front (.members ms) (skipBlank t) rest) :
    Front (.value (.object (gatherMembers ms))) ('\x7b' :: t) rest := by
  obtain ⟨blanks, x, hblanks, rfl, hreads⟩ := h.exists_reads
  exact ⟨_, by simp, .object hblanks hreads⟩

theorem Front.last (hv : Front (.value v) s after) (h : skipBlank after = ']' :: rest) :
    Front (.elements [v]) s rest := by
  obtain ⟨x, rfl, hreads⟩ := hv
  obtain ⟨blanks, hblanks, rfl⟩ := exists_mark h
  exact ⟨_, by simp, .last hreads hblanks⟩

theorem Front.more (hv : Front (.value v) s after) (hcomma : skipBlank after = ',' :: t)
    (h : Front (.elements vs) (skipBlank t) rest) : Front (.elements (v :: vs)) s rest := by
  obtain ⟨x, rfl, hreads⟩ := hv
  obtain ⟨blanks, hblanks, rfl⟩ := exists_mark hcomma
  obtain ⟨blanks', y, hblanks', rfl, hreads'⟩ := h.exists_reads
  exact ⟨_, by simp, .more hreads hblanks hblanks' hreads'⟩

theorem Front.member (hname : readQuoted taken t = .ok (name, after))
    (hcolon : skipBlank after = ':' :: u) (hv : Front (.value v) (skipBlank u) rest) :
    Front (.member (String.ofList name, v)) ('"' :: t) rest := by
  obtain ⟨x, rfl, hread⟩ := readQuoted_front hname
  obtain ⟨blanks, hblanks, rfl⟩ := exists_mark hcolon
  obtain ⟨blanks', y, hblanks', rfl, hreads⟩ := hv.exists_reads
  have hquoted := hread 0 _ [] (List.append_nil _).symm
  exact ⟨_, by simp, .member hquoted hblanks hblanks' hreads⟩

theorem Front.lastMember (hm : Front (.member m) s after) (h : skipBlank after = '\x7d' :: rest) :
    Front (.members [m]) s rest := by
  obtain ⟨x, rfl, hreads⟩ := hm
  obtain ⟨blanks, hblanks, rfl⟩ := exists_mark h
  exact ⟨_, by simp, .lastMember hreads hblanks⟩

theorem Front.moreMembers (hm : Front (.member m) s after) (hcomma : skipBlank after = ',' :: t)
    (h : Front (.members ms) (skipBlank t) rest) : Front (.members (m :: ms)) s rest := by
  obtain ⟨x, rfl, hreads⟩ := hm
  obtain ⟨blanks, hblanks, rfl⟩ := exists_mark hcomma
  obtain ⟨blanks', y, hblanks', rfl, hreads'⟩ := h.exists_reads
  exact ⟨_, by simp, .moreMembers hreads hblanks hblanks' hreads'⟩

/-! ### The reader takes no other texts -/

/-- One level of the reader: a value is a plain one, a list or an object, whose inside is shorter
than the text. -/
theorem front_value
    (helements : ∀ u, u.length < s.length → ∀ vs rest,
      readFirstElements u = .ok (vs, rest) → Front (.elements vs) u rest)
    (hmembers : ∀ u, u.length < s.length → ∀ ms rest,
      readFirstMembers u = .ok (ms, rest) → Front (.members ms) u rest)
    (h : readFirst s = .ok (v, rest)) : Front (.value v) s rest := by
  replace h := map_val_eq_ok h
  obtain ⟨_, h⟩ := h
  unfold readValue at h
  split at h
  · cases h
  · split at h
    · cases h
    · next hquoted =>
      cases h
      exact front_text hquoted
  · -- A list or an object is read behind its opening, which is shorter.
    next t _ =>
    have hlength := Nat.lt_succ_of_le (length_skipBlank_le t)
    split at h
    · next hclose =>
      cases h
      exact front_noElements hclose
    · split at h
      · cases h
      · next vs after _ hread =>
        cases h
        exact (helements _ hlength _ _ (map_val_of_ok hread)).array
  · next t _ =>
    have hlength := Nat.lt_succ_of_le (length_skipBlank_le t)
    split at h
    · next hclose =>
      cases h
      exact front_noMembers hclose
    · split at h
      · cases h
      · next ms after _ hread =>
        cases h
        exact (hmembers _ hlength _ _ (map_val_of_ok hread)).object
  · split at h
    · cases h
    · next hplain =>
      cases h
      exact front_plain hplain

/-- One level of the reader: elements go on behind a comma and end at a bracket. -/
theorem front_elements
    (hvalue : ∀ v rest, readFirst s = .ok (v, rest) → Front (.value v) s rest)
    (hmore : ∀ u, u.length < s.length → ∀ vs rest,
      readFirstElements u = .ok (vs, rest) → Front (.elements vs) u rest)
    (h : readFirstElements s = .ok (vs, rest)) : Front (.elements vs) s rest := by
  replace h := map_val_eq_ok h
  obtain ⟨_, h⟩ := h
  unfold readElements at h
  split at h
  · cases h
  · next v after hlt hread =>
    have hv := hvalue v after (map_val_of_ok hread)
    split at h
    · next hclose =>
      cases h
      exact hv.last hclose
    · next t hcomma =>
      split at h
      · cases h
      · next more _ _ hrest =>
        cases h
        -- What is left behind a comma is shorter than the text, since a value was taken from it.
        have hskip := length_skipBlank_le after
        have hlength := length_skipBlank_le t
        rw [hcomma, List.length_cons] at hskip
        exact hv.more hcomma (hmore _ (by omega) _ _ (map_val_of_ok hrest))
    · cases h

/-- The members of an object begin with a member, after which they end or go on. -/
theorem exists_member (h : readFirstMembers s = .ok (ms, rest)) :
    ∃ t name afterName u v after, s = '"' :: t ∧
      readQuoted (t.length + 1) t = .ok (name, afterName) ∧ skipBlank afterName = ':' :: u ∧
        readFirst (skipBlank u) = .ok (v, after) ∧
          membersFrom (String.ofList name, v) after = .ok (ms, rest) := by
  have hmembers := h
  replace h := map_val_eq_ok h
  obtain ⟨_, h⟩ := h
  unfold readMembers at h
  split at h
  · next t _ =>
    split at h
    · cases h
    · next name afterName hname =>
      split at h
      · next u hcolon =>
        split at h
        · cases h
        · next v after _ hread =>
          have hv : readFirst (skipBlank u) = .ok (v, after) := map_val_of_ok hread
          rw [readFirstMembers_eq hname hcolon hv] at hmembers
          exact ⟨t, name, afterName, u, v, after, rfl, hname, hcolon, hv, hmembers⟩
      · cases h
  · cases h

/-- One level of the reader: members go on behind a comma and end at a brace. -/
theorem front_members
    (hvalue : ∀ u, u.length < s.length → ∀ v rest,
      readFirst u = .ok (v, rest) → Front (.value v) u rest)
    (hmore : ∀ u, u.length < s.length → ∀ ms rest,
      readFirstMembers u = .ok (ms, rest) → Front (.members ms) u rest)
    (h : readFirstMembers s = .ok (ms, rest)) : Front (.members ms) s rest := by
  obtain ⟨t, name, afterName, u, v, after, rfl, hname, hcolon, hv, h⟩ := exists_member h
  -- Everything that is read later is shorter than what stands behind the name.
  have hshort : after.length < (skipBlank u).length := (map_val_eq_ok hv).1
  have hbehind := readQuoted_length hname
  have hskipName := length_skipBlank_le afterName
  have hskipColon := length_skipBlank_le u
  rw [hcolon, List.length_cons] at hskipName
  rw [List.length_cons] at hvalue hmore
  have hmember : Front (.member (String.ofList name, v)) ('"' :: t) after :=
    .member hname hcolon (hvalue _ (by omega) v after hv)
  unfold membersFrom at h
  split at h
  · next hclose =>
    cases h
    exact hmember.lastMember hclose
  · next w hcomma =>
    obtain ⟨⟨more, rest'⟩, hrest, hpair⟩ := Outcome.map_eq_ok.1 h
    cases hpair
    have hskip := length_skipBlank_le after
    have hlength := length_skipBlank_le w
    rw [hcomma, List.length_cons] at hskip
    exact hmember.moreMembers hcomma (hmore _ (by omega) _ _ hrest)
  · cases h

/-- What the reader takes from the front of a text is a value of the grammar. -/
theorem front_of_readFirst (h : readFirst s = .ok (v, rest)) : Front (.value v) s rest := by
  -- Values, lists and objects read each other in shorter texts only: one induction for the three.
  suffices hall : ∀ s : List Char,
      (∀ v rest, readFirst s = .ok (v, rest) → Front (.value v) s rest) ∧
        (∀ vs rest, readFirstElements s = .ok (vs, rest) → Front (.elements vs) s rest) ∧
        ∀ ms rest, readFirstMembers s = .ok (ms, rest) → Front (.members ms) s rest from
    (hall s).1 v rest h
  intro s
  induction s using (measure List.length).wf.induction with
  | h s ih =>
    have hvalues := fun u (hu : u.length < s.length) => (ih u hu).1
    have helements := fun u (hu : u.length < s.length) => (ih u hu).2.1
    have hmembers := fun u (hu : u.length < s.length) => (ih u hu).2.2
    have hvalue : ∀ v rest, readFirst s = .ok (v, rest) → Front (.value v) s rest :=
      fun _ _ => front_value helements hmembers
    exact ⟨hvalue, fun _ _ => front_elements hvalue helements,
      fun _ _ => front_members hvalues hmembers⟩

/-- **The reader takes exactly the values of the grammar**, and leaves what stands behind them. -/
theorem readFirst_iff :
    readFirst s = .ok (v, rest) ↔ ∃ x, s = x ++ rest ∧ Reads (.value v) x rest := by
  constructor
  · exact front_of_readFirst
  · rintro ⟨x, rfl, h⟩
    exact h.takes

/-- What the reader takes from the front of a text, it takes alone as well. -/
theorem exists_readFirst_alone (h : readFirst s = .ok (v, rest)) :
    ∃ x, s = x ++ rest ∧ readFirst x = .ok (v, []) := by
  obtain ⟨x, hx, hreads⟩ := readFirst_iff.1 h
  have halone := (hreads.cut (List.nil_append rest).symm).takes
  rw [List.append_nil] at halone
  exact ⟨x, hx, halone⟩

/-! ### Whole documents -/

theorem begins_of_readFirst (h : readFirst s = .ok (v, rest)) : ∃ c t, s = c :: t ∧ Begins c := by
  obtain ⟨x, rfl, hreads⟩ := readFirst_iff.1 h
  obtain ⟨c, t, rfl, hc⟩ := hreads.begins
  exact ⟨c, t ++ rest, rfl, hc⟩

/-- A text that is a value from its first to its last character is a document. -/
theorem readWhole_of_readFirst (h : readFirst s = .ok (v, [])) : readWhole s = .ok v := by
  obtain ⟨c, t, rfl, hc⟩ := begins_of_readFirst h
  have hmark : c ≠ '\ufeff' := hc.ne (by decide) (by decide)
  rw [readWhole, List.head?_cons, if_neg fun heq => hmark (Option.some.inj heq),
    skipBlank_cons (isJsonBlank_of_begins hc), h]
  rfl

theorem skipBlank_eq_nil : skipBlank s = [] ↔ Blanks s :=
  List.dropWhile_eq_nil_iff

/-- A document is a value between blanks. -/
theorem exists_of_readWhole (h : readWhole s = .ok v) :
    ∃ blanks x blanks', s = blanks ++ (x ++ blanks') ∧ Blanks blanks ∧ Blanks blanks' ∧
      Reads (.value v) x [] := by
  rw [readWhole] at h
  split at h
  · cases h
  split at h
  · cases h
  · next v' rest hfirst =>
    split at h
    · next hrest =>
      cases h
      obtain ⟨blanks, hblanks, hs⟩ := exists_blanks s
      obtain ⟨x, hx, hreads⟩ := readFirst_iff.1 hfirst
      refine ⟨blanks, x, rest, by rw [← hx, ← hs], hblanks, ?_, hreads.cut (b := rest) rfl⟩
      exact skipBlank_eq_nil.1 (List.isEmpty_iff.1 hrest)
    · cases h

theorem Reads.members_end {p : Part} (h : Reads p x rest) (hp : p = .members ms) :
    ∃ y, x = y ++ ['\x7d'] := by
  induction h generalizing ms with
  | lastMember _ _ _ => exact ⟨_, (List.append_assoc ..).symm⟩
  | moreMembers _ _ _ _ _ ih =>
    obtain ⟨y, rfl⟩ := ih rfl
    exact ⟨_, by rw [← List.append_assoc, ← List.cons_append, ← List.append_assoc,
      ← List.append_assoc]⟩
  | _ => cases hp

/-- The text of an object goes from a brace to a brace. -/
theorem Reads.object_ends (h : Reads (.value (.object ms)) x rest) :
    ∃ y, x = '\x7b' :: (y ++ ['\x7d']) := by
  cases h with
  | plain h => exact absurd rfl (not_object_of_readPlain? h ms)
  | noMembers _ => exact ⟨_, rfl⟩
  | object _ h =>
    obtain ⟨y, rfl⟩ := h.members_end rfl
    exact ⟨_, by rw [List.append_assoc]⟩

end BoundaryTypes.Json
