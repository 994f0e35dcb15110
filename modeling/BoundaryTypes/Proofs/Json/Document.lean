/-
  `Document` — a written document is read back.

  `Textual` are the values without numbers whose objects name no member twice.
  However deep such a value stands and whatever the width of an indent, the reader
  takes its text as the value and leaves what follows (`readFirst_writeAt`): a
  container is read part by part, and the breaks between the parts are blanks apart
  from one comma. Hence `read_write`.
-/
import BoundaryTypes.Json.Position
import BoundaryTypes.Json.Writer
import BoundaryTypes.Proofs.Json.Literal
import BoundaryTypes.Proofs.Text.Joined

namespace BoundaryTypes.Json

/-- A value without numbers in which no object names a member twice. -/
inductive Textual : Json → Prop
  | null : Textual .null
  | bool (b : Bool) : Textual (.bool b)
  | string (s : String) : Textual (.string s)
  | array {elements : List Json} (each : ∀ v ∈ elements, Textual v) : Textual (.array elements)
  | object {members : List (String × Json)} (distinct : (members.map (·.1)).Nodup)
      (each : ∀ m ∈ members, Textual m.2) : Textual (.object members)

/-! ### Blanks and breaks -/

/-- Blanks before a text are skipped with those of the text. -/
theorem skipBlank_append {blanks s : List Char} (h : ∀ c ∈ blanks, isJsonBlank c = true) :
    skipBlank (blanks ++ s) = skipBlank s := by
  induction blanks with
  | nil => rfl
  | cons c blanks ih =>
    rw [skipBlank, List.cons_append, List.dropWhile_cons_of_pos (h c List.mem_cons_self)]
    exact ih fun d hd => h d (List.mem_cons_of_mem c hd)

theorem skipBlank_cons {c : Char} {s : List Char} (h : isJsonBlank c = false) :
    skipBlank (c :: s) = c :: s := by
  rw [skipBlank, List.dropWhile_cons_of_neg (by rw [h]; decide)]

/-- Breaks made of blanks, but for one comma in front of those between two parts. -/
structure Breaks.Blank (b : Breaks) : Prop where
  opening : ∀ c ∈ b.opening.toList, isJsonBlank c = true
  between : ∃ blanks, b.between.toList = ',' :: blanks ∧ ∀ c ∈ blanks, isJsonBlank c = true
  closing : ∀ c ∈ b.closing.toList, isJsonBlank c = true

theorem Breaks.blank_at (indent : Option Nat) (depth : Nat) : (Breaks.at indent depth).Blank := by
  cases indent with
  | none =>
    refine ⟨by simp [Breaks.at], ⟨[' '], ?_, by simp [isJsonBlank]⟩, by simp [Breaks.at]⟩
    show (", ").toList = [',', ' ']
    rfl
  | some width =>
    -- A break between lines is a line feed and an indent.
    have line : ∀ d, ∀ c ∈ ("\n" ++ String.ofList (List.replicate (width * d) ' ')).toList,
        isJsonBlank c = true := by
      intro d c hc
      simp only [String.toList_append, String.toList_ofList, List.mem_append,
        List.mem_replicate] at hc
      rcases hc with hc | ⟨-, rfl⟩
      · rw [List.mem_singleton.1 hc]; decide
      · decide
    refine ⟨line (depth + 1), ⟨_, String.toList_append, line (depth + 1)⟩, line depth⟩

/-- A container without parts is written without a break. -/
theorem Breaks.wrap_nil (b : Breaks) (left right : String) : b.wrap left right [] = left ++ right :=
  rfl

theorem Breaks.toList_wrap_cons (b : Breaks) {left right : String} {l r : Char}
    (hl : left.toList = [l]) (hr : right.toList = [r]) (part : String) (parts : List String)
    (rest : List Char) :
    (b.wrap left right (part :: parts)).toList ++ rest =
      l :: (b.opening.toList ++ ((b.between.intercalate (part :: parts)).toList ++
        (b.closing.toList ++ r :: rest))) := by
  show (left ++ b.opening ++ b.between.intercalate (part :: parts) ++ b.closing
    ++ right).toList ++ rest = _
  simp only [String.toList_append, List.append_assoc, hl, hr, List.cons_append, List.nil_append]

/-- A container begins with its left bracket. -/
theorem Breaks.toList_wrap (b : Breaks) (left right : String) {l r : Char}
    (hl : left.toList = [l]) (hr : right.toList = [r]) (parts : List String) :
    ∃ t, (b.wrap left right parts).toList = l :: t := by
  cases parts with
  | nil =>
    rw [Breaks.wrap_nil, String.toList_append, hl]
    exact ⟨_, rfl⟩
  | cons part parts =>
    have h := b.toList_wrap_cons hl hr part parts []
    rw [List.append_nil] at h
    exact ⟨_, h⟩

/-! ### Steps of the reader -/

/-- The elements of a list at the front of a text up to the closing bracket, and what follows. -/
def readFirstElements (s : List Char) : Except Fault (List Json × List Char) :=
  (readElements s).map fun (elements, rest) => (elements, rest.val)

/-- The members of an object at the front of a text up to the closing brace, and what follows. -/
def readFirstMembers (s : List Char) : Except Fault (List (String × Json) × List Char) :=
  (readMembers s).map fun (members, rest) => (members, rest.val)

variable {s t after rest : List Char} {v : Json}

theorem map_val_eq_ok {α : Type} {r : Except Fault (α × Rest s)} {a : α}
    (h : (r.map fun (b, u) => (b, u.val)) = .ok (a, rest)) : ∃ hlt, r = .ok (a, ⟨rest, hlt⟩) := by
  match r, h with
  | .ok (b, ⟨u, hu⟩), h => cases h; exact ⟨hu, rfl⟩

theorem map_val_of_ok {α : Type} {r : Except Fault (α × Rest s)} {a : α} {u : Rest s}
    (h : r = .ok (a, u)) : (r.map fun (b, u) => (b, u.val)) = .ok (a, u.val) := by
  rw [h]
  rfl

theorem readFirst_quoted {text : List Char}
    (h : readQuoted (t.length + 1) t = .ok (text, after)) :
    readFirst ('"' :: t) = .ok (.string (String.ofList text), after) := by
  rw [readFirst, readValue]
  split
  · next hq => rw [h] at hq; cases hq
  · next hq => rw [h] at hq; cases hq; rfl

/-- A quoted text is read as that text, whatever follows it. -/
theorem readFirst_quoteChars (text rest : List Char) :
    readFirst (quoteChars text ++ rest) = .ok (.string (String.ofList text), rest) := by
  rw [quoteChars_append]
  exact readFirst_quoted (readQuoted_flatMap _ text rest)

theorem readFirst_array_nil (h : skipBlank t = ']' :: rest) :
    readFirst ('[' :: t) = .ok (.array [], rest) := by
  rw [readFirst, readValue]
  split
  · next hclose => rw [h] at hclose; cases hclose; rfl
  · next hopen => exact absurd h (hopen rest)

/-- A list is read by its elements, unless its bracket closes at once. -/
theorem readFirst_array {elements : List Json} (hhead : ∀ u, skipBlank t ≠ ']' :: u)
    (h : readFirstElements (skipBlank t) = .ok (elements, rest)) :
    readFirst ('[' :: t) = .ok (.array elements, rest) := by
  obtain ⟨_, h⟩ := map_val_eq_ok h
  rw [readFirst, readValue]
  split
  · next hclose => exact absurd hclose (hhead _)
  · rw [h]; rfl

theorem readFirst_object_nil (h : skipBlank t = '\x7d' :: rest) :
    readFirst ('\x7b' :: t) = .ok (.object [], rest) := by
  rw [readFirst, readValue]
  split
  · next hclose => rw [h] at hclose; cases hclose; rfl
  · next hopen => exact absurd h (hopen rest)

/-- An object is read by its members, unless its brace closes at once. -/
theorem readFirst_object {members : List (String × Json)}
    (hhead : ∀ u, skipBlank t ≠ '\x7d' :: u)
    (h : readFirstMembers (skipBlank t) = .ok (members, rest)) :
    readFirst ('\x7b' :: t) = .ok (.object (gatherMembers members), rest) := by
  obtain ⟨_, h⟩ := map_val_eq_ok h
  rw [readFirst, readValue]
  split
  · next hclose => exact absurd hclose (hhead _)
  · rw [h]; rfl

/-- A word or a number is read as it is. -/
theorem readFirst_plain {c : Char} {taken : Nat} (hc : c ≠ '"' ∧ c ≠ '[' ∧ c ≠ '\x7b')
    (h : readPlain? (c :: t) = some (v, taken)) :
    readFirst (c :: t) = .ok (v, t.drop (taken - 1)) := by
  rw [readFirst, readValue]
  · rw [h]; rfl
  · exact hc.1
  · exact hc.2.1
  · exact hc.2.2

/-- The closing bracket ends a list. -/
theorem readFirstElements_last (hv : readFirst s = .ok (v, after))
    (hclose : skipBlank after = ']' :: rest) : readFirstElements s = .ok ([v], rest) := by
  obtain ⟨_, hv⟩ := map_val_eq_ok hv
  rw [readFirstElements, readElements, hv]
  dsimp only
  split
  · next h => rw [hclose] at h; cases h; rfl
  · next h => rw [hclose] at h; cases h
  · next h _ => exact absurd hclose (h rest)

/-- After a comma a list goes on. -/
theorem readFirstElements_cons {more : List Json} (hv : readFirst s = .ok (v, after))
    (hcomma : skipBlank after = ',' :: t)
    (h : readFirstElements (skipBlank t) = .ok (more, rest)) :
    readFirstElements s = .ok (v :: more, rest) := by
  obtain ⟨_, hv⟩ := map_val_eq_ok hv
  obtain ⟨_, h⟩ := map_val_eq_ok h
  rw [readFirstElements, readElements, hv]
  dsimp only
  split
  · next hc => rw [hcomma] at hc; cases hc
  · next hc => rw [hcomma] at hc; cases hc; rw [h]; rfl
  · next _ hc => exact absurd hcomma (hc t)

/-- The members of an object from a member on, when `after` stands behind its value. -/
def membersFrom (m : String × Json) (after : List Char) :
    Except Fault (List (String × Json) × List Char) :=
  match skipBlank after with
  | '\x7d' :: rest => .ok ([m], rest)
  | ',' :: t => (readFirstMembers (skipBlank t)).map fun p => (m :: p.1, p.2)
  | _ => .error ⟨.comma, (skipBlank after).length⟩

section MembersFrom

variable {m : String × Json}

theorem membersFrom_comma (hcomma : skipBlank after = ',' :: t) :
    membersFrom m after = (readFirstMembers (skipBlank t)).map fun p => (m :: p.1, p.2) := by
  rw [membersFrom, hcomma]
  rfl

/-- The closing brace ends an object. -/
theorem membersFrom_last (hclose : skipBlank after = '\x7d' :: rest) :
    membersFrom m after = .ok ([m], rest) := by
  rw [membersFrom, hclose]
  rfl

/-- After a comma an object goes on. -/
theorem membersFrom_cons {more : List (String × Json)} (hcomma : skipBlank after = ',' :: t)
    (hm : readFirstMembers (skipBlank t) = .ok (more, rest)) :
    membersFrom m after = .ok (m :: more, rest) := by
  rw [membersFrom_comma hcomma, hm]
  rfl

end MembersFrom

/-- A member is read by its name and its value, and the reader goes on behind them. -/
theorem readFirstMembers_eq {name afterName u : List Char}
    (hname : readQuoted (t.length + 1) t = .ok (name, afterName))
    (hcolon : skipBlank afterName = ':' :: u) (hv : readFirst (skipBlank u) = .ok (v, after)) :
    readFirstMembers ('"' :: t) = membersFrom (String.ofList name, v) after := by
  obtain ⟨_, hv⟩ := map_val_eq_ok hv
  rw [readFirstMembers, readMembers]
  -- The reader looks at the name, the colon, the value, and then at what follows it.
  split
  · next h => rw [hname] at h; cases h
  · next h =>
    rw [hname] at h
    cases h
    split
    · next hc =>
      rw [hcolon] at hc
      cases hc
      rw [hv]
      dsimp only
      split
      · next hclose => exact (membersFrom_last hclose).symm
      · next w hcomma =>
        rw [membersFrom_comma hcomma, readFirstMembers]
        cases readMembers (skipBlank w) <;> rfl
      · next hbrace hcomma =>
        rw [membersFrom]
        split
        · next h => exact absurd h (hbrace _)
        · next h => exact absurd h (hcomma _)
        · rfl
    · next hc => exact absurd hcolon (hc u)

theorem readFirstMembers_quoteChars {name u : List Char}
    (hv : readFirst (skipBlank u) = .ok (v, after)) :
    readFirstMembers (quoteChars name ++ ':' :: u) = membersFrom (String.ofList name, v) after := by
  rw [quoteChars_append]
  exact readFirstMembers_eq (readQuoted_flatMap _ name (':' :: u)) (skipBlank_cons (by decide)) hv

/-! ### Members with distinct names -/

/-- A new member comes behind the others. -/
theorem putMember_of_notMem {α : Type} {members : List (String × α)} {name : String} {value : α}
    (h : name ∉ members.map (·.1)) : putMember members name value = members ++ [(name, value)] := by
  induction members with
  | nil => rfl
  | cons m rest ih =>
    rw [List.map_cons, List.mem_cons, not_or] at h
    rw [putMember, if_neg (Ne.symm h.1), ih h.2, List.cons_append]

/-- Members with distinct names are gathered as they stand. -/
theorem gatherMembers_of_nodup {α : Type} {members : List (String × α)}
    (h : (members.map (·.1)).Nodup) : gatherMembers members = members := by
  -- What is gathered so far is a parameter; no later name is among it.
  suffices hs : ∀ (rest acc : List (String × α)), ((acc ++ rest).map (·.1)).Nodup →
      rest.foldl (fun acc m => putMember acc m.1 m.2) acc = acc ++ rest from hs members [] h
  intro rest
  induction rest with
  | nil => intro acc _; rw [List.foldl_nil, List.append_nil]
  | cons m rest ih =>
    intro acc hnd
    have hm : m.1 ∉ acc.map (·.1) := by
      intro hmem
      rw [List.map_append, List.nodup_append] at hnd
      exact hnd.2.2 m.1 hmem m.1 (by simp) rfl
    rw [List.foldl_cons, putMember_of_notMem hm, ih _ (by simpa using hnd), List.append_assoc]
    rfl

/-! ### Written values -/

/-- The characters that begin a written value without numbers. -/
def valueOpenings : List Char := ['"', '[', '\x7b', 'n', 't', 'f']

theorem valueOpenings_spec : ∀ c ∈ valueOpenings,
    isJsonBlank c = false ∧ c ≠ ']' ∧ c ≠ '\ufeff' := by
  simp [valueOpenings, isJsonBlank]

/-- A written value begins with a character that opens values. -/
theorem writeAt_head (indent : Option Nat) (depth : Nat) (hv : Textual v) :
    ∃ c ∈ valueOpenings, ∃ t, (writeAt indent depth v).toList = c :: t := by
  cases hv with
  | null => exact ⟨'n', by decide, _, by rw [writeAt]; rfl⟩
  | bool b =>
    cases b with
    | true => exact ⟨'t', by decide, _, by rw [writeAt]; rfl⟩
    | false => exact ⟨'f', by decide, _, by rw [writeAt]; rfl⟩
  | string s => exact ⟨'"', by decide, _, by rw [writeAt, toList_quote, quoteChars]⟩
  | array _ =>
    obtain ⟨t, ht⟩ := (Breaks.at indent depth).toList_wrap "[" "]" (l := '[') (r := ']') rfl rfl
      (writeElements indent depth _)
    exact ⟨'[', by decide, t, by rw [writeAt, ht]⟩
  | object _ _ =>
    obtain ⟨t, ht⟩ := (Breaks.at indent depth).toList_wrap "\x7b" "\x7d" (l := '\x7b') (r := '\x7d')
      rfl rfl (writeMembers indent depth _)
    exact ⟨'\x7b', by decide, t, by rw [writeAt, ht]⟩

/-- Joined pieces begin like the first of them. -/
theorem intercalate_head {separator piece : String} {pieces : List String} {c : Char}
    (h : ∃ t, piece.toList = c :: t) :
    ∃ t, (separator.intercalate (piece :: pieces)).toList = c :: t := by
  obtain ⟨t, ht⟩ := h
  rw [Text.toList_intercalate_cons, ht, List.cons_append]
  exact ⟨_, rfl⟩

/-- A text that begins with no blank is not changed by leaving out blanks. -/
theorem skipBlank_of_head {c : Char} (h : ∃ u, t = c :: u) (hc : isJsonBlank c = false) :
    skipBlank (t ++ rest) = t ++ rest := by
  obtain ⟨u, rfl⟩ := h
  rw [List.cons_append, skipBlank_cons hc]

theorem writeElements_eq (indent : Option Nat) (depth : Nat) (elements : List Json) :
    writeElements indent depth elements = elements.map (writeAt indent (depth + 1)) := by
  induction elements with
  | nil => rfl
  | cons v vs ih => rw [writeElements, ih, List.map_cons]

/-- The text of a member whose value stands at the depth. -/
def memberText (indent : Option Nat) (depth : Nat) (m : String × Json) : String :=
  quote m.1 ++ ": " ++ writeAt indent depth m.2

theorem toList_memberText (indent : Option Nat) (depth : Nat) (m : String × Json) :
    (memberText indent depth m).toList =
      quoteChars m.1.toList ++ ':' :: ' ' :: (writeAt indent depth m.2).toList := by
  rw [memberText, String.toList_append, String.toList_append, toList_quote, List.append_assoc]
  rfl

/-- A written member begins with a quotation mark. -/
theorem memberText_head (indent : Option Nat) (depth : Nat) (m : String × Json) :
    ∃ t, (memberText indent depth m).toList = '"' :: t := by
  rw [toList_memberText, quoteChars_append]
  exact ⟨_, rfl⟩

theorem writeMembers_eq (indent : Option Nat) (depth : Nat) (members : List (String × Json)) :
    writeMembers indent depth members = members.map (memberText indent (depth + 1)) := by
  induction members with
  | nil => rfl
  | cons m ms ih => rw [writeMembers, ih, List.map_cons, memberText]

section Containers

variable (indent : Option Nat) (depth : Nat) {b : Breaks} (hb : b.Blank)
include hb

/-- What a list holds up to its closing bracket is read as its elements, if each of them is. -/
theorem readFirstElements_write (v : Json) (vs : List Json) (ht : ∀ w ∈ v :: vs, Textual w)
    (hr : ∀ w ∈ v :: vs, ∀ rest,
      readFirst ((writeAt indent depth w).toList ++ rest) = .ok (w, rest))
    (rest : List Char) :
    readFirstElements ((b.between.intercalate ((v :: vs).map (writeAt indent depth))).toList
      ++ (b.closing.toList ++ ']' :: rest)) = .ok (v :: vs, rest) := by
  -- By induction on the elements behind the first one, which is read first.
  induction vs generalizing v with
  | nil =>
    rw [List.map_singleton, String.intercalate_singleton]
    refine readFirstElements_last (hr v List.mem_cons_self _) ?_
    rw [skipBlank_append hb.closing, skipBlank_cons (by decide)]
  | cons w ws ih =>
    obtain ⟨blanks, hbetween, hblanks⟩ := hb.between
    have more := ih w (fun u hu => ht u (List.mem_cons_of_mem v hu))
      fun u hu => hr u (List.mem_cons_of_mem v hu)
    rw [List.map_cons, List.map_cons, String.intercalate_cons_cons, ← List.map_cons]
    simp only [String.toList_append, List.append_assoc, hbetween, List.cons_append]
    refine readFirstElements_cons (hr v List.mem_cons_self _) (skipBlank_cons (by decide)) ?_
    -- The blanks behind the comma are left out, and the next element begins with none.
    obtain ⟨c, hc, hhead⟩ := writeAt_head indent depth (ht w (by simp))
    rw [skipBlank_append hblanks, List.map_cons,
      skipBlank_of_head (intercalate_head hhead) (valueOpenings_spec c hc).1, ← List.map_cons, more]

/-- What an object holds up to its closing brace is read as its members, if each value is. -/
theorem readFirstMembers_write (m : String × Json) (ms : List (String × Json))
    (ht : ∀ n ∈ m :: ms, Textual n.2)
    (hr : ∀ n ∈ m :: ms, ∀ rest,
      readFirst ((writeAt indent depth n.2).toList ++ rest) = .ok (n.2, rest))
    (rest : List Char) :
    readFirstMembers ((b.between.intercalate ((m :: ms).map (memberText indent depth))).toList
      ++ (b.closing.toList ++ '\x7d' :: rest)) = .ok (m :: ms, rest) := by
  -- A value stands behind a blank, which the reader leaves out.
  have value : ∀ n ∈ m :: ms, ∀ after, readFirst (skipBlank (' ' ::
      ((writeAt indent depth n.2).toList ++ after))) = .ok (n.2, after) := by
    intro n hn after
    obtain ⟨c, hc, hhead⟩ := writeAt_head indent depth (ht n hn)
    rw [← List.singleton_append, skipBlank_append (by simp [isJsonBlank]),
      skipBlank_of_head hhead (valueOpenings_spec c hc).1]
    exact hr n hn after
  induction ms generalizing m with
  | nil =>
    have close : skipBlank (b.closing.toList ++ '\x7d' :: rest) = '\x7d' :: rest := by
      rw [skipBlank_append hb.closing, skipBlank_cons (by decide)]
    rw [List.map_singleton, String.intercalate_singleton, toList_memberText]
    simp only [List.append_assoc, List.cons_append]
    rw [readFirstMembers_quoteChars (value m List.mem_cons_self _), String.ofList_toList]
    exact membersFrom_last close
  | cons n ns ih =>
    obtain ⟨blanks, hbetween, hblanks⟩ := hb.between
    have more := ih n (fun u hu => ht u (List.mem_cons_of_mem m hu))
      (fun u hu => hr u (List.mem_cons_of_mem m hu))
      fun u hu => value u (List.mem_cons_of_mem m hu)
    rw [List.map_cons,
      ← skipBlank_of_head (intercalate_head (memberText_head indent depth n)) (by decide),
      ← skipBlank_append hblanks] at more
    rw [List.map_cons, List.map_cons, String.intercalate_cons_cons]
    simp only [String.toList_append, toList_memberText, List.append_assoc, hbetween,
      List.cons_append]
    rw [readFirstMembers_quoteChars (value m List.mem_cons_self _), String.ofList_toList]
    exact membersFrom_cons (skipBlank_cons (by decide)) more

end Containers

/-- The text of a value is read as the value, whatever follows it. -/
theorem readFirst_writeAt (indent : Option Nat) (hv : Textual v) (depth : Nat) (rest : List Char) :
    readFirst ((writeAt indent depth v).toList ++ rest) = .ok (v, rest) := by
  -- Depth and rest vary: parts stand one level deeper, each before the text of the next one.
  induction hv generalizing depth rest with
  | null =>
    rw [writeAt]
    exact readFirst_plain (c := 'n') (t := 'u' :: 'l' :: 'l' :: rest) (by decide) rfl
  | bool b =>
    rw [writeAt]
    cases b with
    | true => exact readFirst_plain (c := 't') (t := 'r' :: 'u' :: 'e' :: rest) (by decide) rfl
    | false =>
      exact readFirst_plain (c := 'f') (t := 'a' :: 'l' :: 's' :: 'e' :: rest) (by decide) rfl
  | string s =>
    rw [writeAt, toList_quote, readFirst_quoteChars, String.ofList_toList]
  | @array elements ht ih =>
    rw [writeAt, writeElements_eq]
    cases elements with
    | nil =>
      rw [List.map_nil, Breaks.wrap_nil]
      exact readFirst_array_nil (skipBlank_cons (by decide))
    | cons w ws =>
      have hb := Breaks.blank_at indent depth
      have hread := readFirstElements_write indent (depth + 1) hb w ws ht
        (fun u hu => ih u hu (depth + 1)) rest
      obtain ⟨c, hc, hhead⟩ := writeAt_head indent (depth + 1) (ht w List.mem_cons_self)
      -- The first element begins neither with a blank nor with the closing bracket.
      obtain ⟨hblank, hclose, -⟩ := valueOpenings_spec c hc
      rw [List.map_cons] at hread ⊢
      rw [Breaks.toList_wrap_cons _ rfl rfl]
      refine readFirst_array ?_ ?_
      · obtain ⟨u, hu⟩ := intercalate_head hhead
        rw [skipBlank_append hb.opening, hu, List.cons_append, skipBlank_cons hblank]
        exact fun _ h => hclose (List.cons.inj h).1
      · rw [skipBlank_append hb.opening, skipBlank_of_head (intercalate_head hhead) hblank]
        exact hread
  | @object members hnd ht ih =>
    rw [writeAt, writeMembers_eq]
    cases members with
    | nil =>
      rw [List.map_nil, Breaks.wrap_nil]
      exact readFirst_object_nil (skipBlank_cons (by decide))
    | cons m ms =>
      have hb := Breaks.blank_at indent depth
      have hread := readFirstMembers_write indent (depth + 1) hb m ms ht
        (fun n hn => ih n hn (depth + 1)) rest
      -- The first member begins with a quote.
      have hhead := memberText_head indent (depth + 1) m
      rw [List.map_cons] at hread ⊢
      rw [Breaks.toList_wrap_cons _ rfl rfl, ← gatherMembers_of_nodup hnd]
      refine readFirst_object ?_ ?_
      · obtain ⟨u, hu⟩ := intercalate_head hhead
        rw [skipBlank_append hb.opening, hu, List.cons_append, skipBlank_cons (by decide)]
        exact fun _ h => absurd (List.cons.inj h).1 (by decide)
      · rw [skipBlank_append hb.opening, skipBlank_of_head (intercalate_head hhead) (by decide)]
        exact hread

/-- A written value is read as that value. -/
theorem readWhole_write (indent : Option Nat) (hv : Textual v) :
    readWhole (v.write indent).toList = .ok v := by
  obtain ⟨c, hc, t, hhead⟩ := writeAt_head indent 0 hv
  obtain ⟨hblank, -, hmark⟩ := valueOpenings_spec c hc
  have hread := readFirst_writeAt indent hv 0 []
  rw [List.append_nil, hhead] at hread
  rw [write, readWhole, hhead, skipBlank_cons hblank, hread, List.head?_cons,
    if_neg fun h => hmark (Option.some.inj h)]
  rfl

/-- **A written document is read back**, whatever its indent. -/
theorem read_write (indent : Option Nat) (hv : Textual v) : read (v.write indent) = .ok v := by
  rw [read, readWhole_write indent hv]
  rfl

end BoundaryTypes.Json
