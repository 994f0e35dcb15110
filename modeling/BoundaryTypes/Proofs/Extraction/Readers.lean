/-
  `Readers` — the reader of extractors and the reader of descriptors agree.

  An extractor's output is trimmed of all white space, and the value at its front must be all of
  it; a descriptor is read from a text in which only the blanks of JSON may surround the value. On
  a trimmed text the two come to the same (`readWhole_iff_of_trimmed`): no blank is left at its
  ends, so that what remains behind a value is nothing or no blank. And a text that is accepted
  without trimming holds an object, which begins and ends with a brace, so trimming leaves just
  the object. `readers_agree` has all outcomes.
-/
import BoundaryTypes.Extraction
import BoundaryTypes.Proofs.Json.Grammar

namespace BoundaryTypes

open Json

namespace Text

variable {s x l r rest : List Char}

/-! ### Trimmed texts -/

/-- A text without blanks at its ends. -/
structure Trimmed (s : List Char) : Prop where
  first : ∀ c ∈ s.head?, isBlank c = false
  last : ∀ c ∈ s.getLast?, isBlank c = false

theorem head?_dropWhile_isBlank (s : List Char) :
    ∀ c ∈ (s.dropWhile isBlank).head?, isBlank c = false := by
  intro c hc
  have hhead := List.head?_dropWhile_not isBlank s
  rw [hc] at hhead
  exact hhead

/-- Trimming leaves no blank at either end. -/
theorem trimmed_trimBlank (s : List Char) : Trimmed (trimBlank s) := by
  have hlast := head?_dropWhile_isBlank (s.dropWhile isBlank).reverse
  refine ⟨?_, by rwa [trimBlank, List.getLast?_reverse]⟩
  -- What is left begins like the text without its first blanks.
  obtain ⟨r, hr⟩ := List.dropWhile_suffix (l := (s.dropWhile isBlank).reverse) isBlank
  have hsplit : s.dropWhile isBlank = trimBlank s ++ r.reverse := by
    rw [trimBlank, ← List.reverse_append, hr, List.reverse_reverse]
  intro c hc
  apply head?_dropWhile_isBlank s
  rw [hsplit, List.head?_append, hc]
  rfl

/-- Nothing is left exactly of texts that are blank throughout. -/
theorem trimBlank_eq_nil : trimBlank s = [] ↔ ∀ c ∈ s, isBlank c = true := by
  rw [trimBlank, List.reverse_eq_nil_iff]
  constructor
  · intro h
    rw [List.dropWhile_eq_nil_iff] at h
    rw [← List.dropWhile_eq_nil_iff]
    cases hd : s.dropWhile isBlank with
    | nil => rfl
    | cons c t =>
      have hc := head?_dropWhile_isBlank s c (by rw [hd]; rfl)
      rw [h c (by simp [hd])] at hc
      cases hc
  · intro h
    rw [List.dropWhile_eq_nil_iff.2 h]
    rfl

/-- What stands behind a part of a trimmed text is nothing, or it has another character than
blanks. -/
theorem Trimmed.eq_nil (h : Trimmed (x ++ rest)) (hrest : ∀ c ∈ rest, isBlank c = true) :
    rest = [] := by
  cases hlast : rest.getLast? with
  | none => exact List.getLast?_eq_none_iff.1 hlast
  | some c =>
    have hc := h.last c (by rw [List.getLast?_append, hlast]; rfl)
    rw [hrest c (List.mem_of_getLast? hlast)] at hc
    cases hc

/-- Blanks around a trimmed text are taken away, and no more. -/
theorem trimBlank_between (hl : ∀ c ∈ l, isBlank c = true) (hr : ∀ c ∈ r, isBlank c = true)
    (hx : Trimmed x) (hne : x ≠ []) : trimBlank (l ++ (x ++ r)) = x := by
  -- Blanks are taken off the front up to the first character of the text, then off the end.
  have hfirst : (x ++ r).dropWhile isBlank = x ++ r := by
    cases x with
    | nil => exact absurd rfl hne
    | cons c x =>
      have hc := hx.first c rfl
      rw [List.cons_append, List.dropWhile_cons, hc, if_neg Bool.false_ne_true]
  have hlast : x.reverse.dropWhile isBlank = x.reverse := by
    cases hreverse : x.reverse with
    | nil => rfl
    | cons c t =>
      have hc := hx.last c (by rw [List.getLast?_eq_head?_reverse, hreverse]; rfl)
      rw [List.dropWhile_cons, hc, if_neg Bool.false_ne_true]
  have hreverse : ∀ c ∈ r.reverse, isBlank c = true := fun c hc => hr c (List.mem_reverse.1 hc)
  rw [trimBlank, List.dropWhile_append_of_pos hl, hfirst, List.reverse_append,
    List.dropWhile_append_of_pos hreverse, hlast, List.reverse_reverse]

theorem isBlank_of_isJsonBlank {c : Char} (h : isJsonBlank c = true) : isBlank c = true := by
  simp only [isJsonBlank, Bool.or_eq_true, beq_iff_eq] at h
  rcases h with ((rfl | rfl) | rfl) | rfl <;> decide

end Text

namespace Extraction

open Text

variable {s rest : List Char} {v : Json} {fallback : Option String} {printed : String}
  {d : Descriptor}

/-! ### The value at the front of a trimmed text -/

/-- A value stands in front of more text: it is a document on its own, and the reader stops behind
it. -/
def Overfull (s : List Char) : Prop :=
  ∃ first rest v, s = first ++ rest ∧ rest ≠ [] ∧ readFirst s = .ok (v, rest) ∧
    readWhole first = .ok v

/-- A value with something behind it is more than one value. -/
theorem overfull_of_readFirst (h : readFirst s = .ok (v, rest)) (hrest : rest ≠ []) :
    Overfull s := by
  obtain ⟨first, hs, halone⟩ := exists_readFirst_alone h
  exact ⟨first, rest, v, hs, hrest, h, readWhole_of_readFirst halone⟩

/-- In a trimmed text there are no blanks to pass over: a document is the value at its front. -/
theorem readWhole_iff_of_trimmed (hs : Trimmed s) :
    readWhole s = .ok v ↔ readFirst s = .ok (v, []) := by
  constructor
  · intro h
    obtain ⟨blanks, x, blanks', rfl, hblanks, hblanks', hreads⟩ := exists_of_readWhole h
    -- A document is a value between blanks, and here no blank can stand at an end.
    have hbehind : blanks' = [] := by
      rw [← List.append_assoc] at hs
      exact hs.eq_nil fun c hc => isBlank_of_isJsonBlank (hblanks' c hc)
    have hfront : blanks = [] := by
      cases blanks with
      | nil => rfl
      | cons c t =>
        have hc := isBlank_of_isJsonBlank (hblanks c List.mem_cons_self)
        rw [hs.first c rfl] at hc
        cases hc
    have htakes := hreads.takes
    subst hbehind hfront
    exact htakes
  · exact readWhole_of_readFirst

theorem Overfull.ne_nil (h : Overfull s) : s ≠ [] := by
  obtain ⟨first, rest, _, rfl, hrest, _⟩ := h
  exact List.append_ne_nil_of_right_ne_nil first hrest

/-- A trimmed text with something behind its first value is no document. -/
theorem Overfull.not_document (h : Overfull s) (hs : Trimmed s) (v : Json) :
    readWhole s ≠ .ok v := by
  intro hwhole
  obtain ⟨_, rest, w, -, hrest, hread, -⟩ := h
  rw [(readWhole_iff_of_trimmed hs).1 hwhole] at hread
  cases hread
  exact hrest rfl

/-! ### The two readers -/

theorem toList_stripBlank (printed : String) :
    (stripBlank printed).toList = trimBlank printed.toList := String.toList_ofList

theorem trimmed_stripBlank (printed : String) : Trimmed (stripBlank printed).toList := by
  rw [toList_stripBlank]
  exact trimmed_trimBlank _

theorem read_eq_ok {text : String} : Json.read text = .ok v ↔ readWhole text.toList = .ok v := by
  rw [Json.read]
  cases readWhole text.toList <;> simp

/-- A descriptor is read from a text as it is from the value of the text. -/
theorem descriptorRead_of_read {text : String} (h : Json.read text = .ok v) :
    Descriptor.read fallback text = Descriptor.ofJson fallback v := by
  rw [Descriptor.read, h]

/-- A descriptor that is read is held by a document. -/
theorem exists_document {text : String} (h : Descriptor.read fallback text = .ok d) :
    ∃ v, Json.read text = .ok v ∧ Descriptor.ofJson fallback v = .ok d := by
  rw [Descriptor.read] at h
  split at h
  · cases h
  · next v hv => exact ⟨v, hv, h⟩

/-- What the reader of extractors says of an output that is `text` when it is trimmed. -/
inductive Answers (fallback : Option String) (text : String) : Except Failure Descriptor → Prop
  | noOutput (h : text = "") (hnot : ∀ v, Json.read text ≠ .ok v) (hone : ¬Overfull text.toList) :
    Answers fallback text (.error (.extraction .noOutput))
  | document {v : Json} (h : Json.read text = .ok v) (hne : text ≠ "")
    (hone : ¬Overfull text.toList) :
    Answers fallback text ((Descriptor.read fallback text).mapError .type)
  | moreThanOne (h : Overfull text.toList) (hne : text ≠ "") (hnot : ∀ v, Json.read text ≠ .ok v) :
    Answers fallback text (.error (.extraction .moreThanOne))
  | notJson {problem : Json.Problem} (hne : text ≠ "") (hnot : ∀ v, Json.read text ≠ .ok v)
    (hone : ¬Overfull text.toList) :
    Answers fallback text (.error (.extraction (.notJson problem)))

/-- How an output is read that is not empty. -/
theorem decode_of_ne_empty (h : stripBlank printed ≠ "") :
    decode fallback printed =
      match readFirst (stripBlank printed).toList with
      | .error f => .error (.extraction (.notJson (f.locate (stripBlank printed).toList)))
      | .ok (v, rest) =>
        if (trimBlank rest).isEmpty then (Descriptor.ofJson fallback v).mapError .type
        else .error (.extraction .moreThanOne) := by
  rw [toList_stripBlank, decode]
  refine if_neg fun hempty => h ?_
  rw [stripBlank, List.isEmpty_iff.1 hempty]

/-- Each printed text has one of the answers, for the reason that the answer gives. -/
theorem answers (fallback : Option String) (printed : String) :
    Answers fallback (stripBlank printed) (decode fallback printed) := by
  have hs := trimmed_stripBlank printed
  by_cases hempty : stripBlank printed = ""
  · have hnone : trimBlank printed.toList = [] := by
      rw [← toList_stripBlank, hempty]
      rfl
    -- A value has a first character, which an empty text lacks.
    have hnot : ∀ v, Json.read (stripBlank printed) ≠ .ok v := by
      intro v hv
      have hread := (readWhole_iff_of_trimmed hs).1 (read_eq_ok.1 hv)
      obtain ⟨c, t, hct, -⟩ := begins_of_readFirst hread
      rw [hempty] at hct
      cases hct
    rw [decode, hnone]
    exact .noOutput hempty hnot fun hover => hover.ne_nil (by rw [hempty]; rfl)
  rw [decode_of_ne_empty hempty]
  cases hread : readFirst (stripBlank printed).toList with
  | error f =>
    refine .notJson hempty (fun v hv => ?_) ?_
    · rw [read_eq_ok, readWhole_iff_of_trimmed hs, hread] at hv
      cases hv
    · -- A text with more behind a value has a value at its front.
      rintro ⟨_, _, _, -, -, hread', -⟩
      rw [hread] at hread'
      cases hread'
  | ok p =>
    obtain ⟨v, rest⟩ := p
    dsimp only
    by_cases hrest : rest = []
    · subst hrest
      have hwhole := readWhole_of_readFirst hread
      have hnothing : (trimBlank []).isEmpty = true := rfl
      rw [if_pos hnothing, ← descriptorRead_of_read (read_eq_ok.2 hwhole)]
      exact .document (read_eq_ok.2 hwhole) hempty fun hover => hover.not_document hs v hwhole
    · have hover := overfull_of_readFirst hread hrest
      rw [if_neg]
      · exact .moreThanOne hover hempty fun v hv => hover.not_document hs v (read_eq_ok.1 hv)
      · -- Blanks behind the value would be at the end of a trimmed text.
        intro hblank
        obtain ⟨x, hx, -⟩ := exists_readFirst_alone hread
        rw [hx] at hs
        exact hrest (hs.eq_nil (trimBlank_eq_nil.1 (List.isEmpty_iff.1 hblank)))

theorem trimmed_object (y : List Char) : Trimmed ('\x7b' :: (y ++ ['\x7d'])) := by
  refine ⟨fun c hc => ?_, fun c hc => ?_⟩
  · obtain rfl := Option.some.inj hc
    decide
  · rw [← List.cons_append, List.getLast?_append] at hc
    obtain rfl := Option.some.inj hc
    decide

/-- A text that holds a descriptor between blanks of JSON holds it when it is trimmed. -/
theorem descriptorRead_stripBlank (h : Descriptor.read fallback printed = .ok d) :
    stripBlank printed ≠ "" ∧ Descriptor.read fallback (stripBlank printed) = .ok d := by
  obtain ⟨v, hread, hd⟩ := exists_document h
  obtain ⟨blanks, x, blanks', hsplit, hblanks, hblanks', hreads⟩ :=
    exists_of_readWhole (read_eq_ok.1 hread)
  cases v with
  | object members =>
    -- Trimming stops at the two braces, so it leaves the object.
    obtain ⟨y, rfl⟩ := hreads.object_ends
    have htrim := trimBlank_between (fun c hc => isBlank_of_isJsonBlank (hblanks c hc))
      (fun c hc => isBlank_of_isJsonBlank (hblanks' c hc)) (trimmed_object y) (List.cons_ne_nil _ _)
    rw [← hsplit, ← toList_stripBlank] at htrim
    have htakes := hreads.takes
    rw [List.append_nil, ← htrim] at htakes
    have hwhole := readWhole_of_readFirst htakes
    refine ⟨fun hempty => ?_, (descriptorRead_of_read (read_eq_ok.2 hwhole)).trans hd⟩
    rw [hempty] at htrim
    cases htrim
  | _ => cases hd

/-! ### Outcomes -/

section Outcomes

variable (fallback : Option String) (printed : String)

theorem decode_eq_ok_iff (d : Descriptor) :
    decode fallback printed = .ok d ↔
      stripBlank printed ≠ "" ∧ Descriptor.read fallback (stripBlank printed) = .ok d := by
  have hnone : (∀ v, Json.read (stripBlank printed) ≠ .ok v) →
      Descriptor.read fallback (stripBlank printed) ≠ .ok d := by
    intro hnot hread
    obtain ⟨v, hv, -⟩ := exists_document hread
    exact hnot v hv
  have hanswers := answers fallback printed
  generalize decode fallback printed = r at hanswers
  cases hanswers with
  | document _ hne _ =>
    cases Descriptor.read fallback (stripBlank printed) <;> simp [hne]
  | noOutput _ hnot _ | moreThanOne _ _ hnot | notJson _ hnot _ => simp [hnone hnot]

theorem decode_eq_type_iff (f : TypeFault) :
    decode fallback printed = .error (.type f) ↔
      (∃ v, Json.read (stripBlank printed) = .ok v) ∧
        Descriptor.read fallback (stripBlank printed) = .error f := by
  have hanswers := answers fallback printed
  generalize decode fallback printed = r at hanswers
  cases hanswers with
  | document h _ _ =>
    cases Descriptor.read fallback (stripBlank printed) <;> simp [h]
  | noOutput _ hnot _ | moreThanOne _ _ hnot | notJson _ hnot _ => simp [hnot]

theorem mapError_type_ne (r : Except TypeFault Descriptor) (f : ExtractionFault) :
    r.mapError Failure.type ≠ .error (.extraction f) := by
  cases r <;> simp

theorem decode_eq_noOutput_iff :
    decode fallback printed = .error (.extraction .noOutput) ↔ stripBlank printed = "" := by
  have hanswers := answers fallback printed
  generalize decode fallback printed = r at hanswers
  cases hanswers with
  | noOutput h _ _ => simp [h]
  | document _ hne _ => simp [hne, mapError_type_ne]
  | moreThanOne _ hne _ | notJson hne _ _ => simp [hne]

theorem decode_eq_moreThanOne_iff :
    decode fallback printed = .error (.extraction .moreThanOne) ↔
      Overfull (stripBlank printed).toList := by
  have hanswers := answers fallback printed
  generalize decode fallback printed = r at hanswers
  cases hanswers with
  | moreThanOne h _ _ => simp [h]
  | document _ _ hone => simp [hone, mapError_type_ne]
  | noOutput _ _ hone | notJson _ _ hone => simp [hone]

theorem decode_eq_notJson_iff :
    (∃ problem, decode fallback printed = .error (.extraction (.notJson problem))) ↔
      stripBlank printed ≠ "" ∧ (∀ v, Json.read (stripBlank printed) ≠ .ok v) ∧
        ¬Overfull (stripBlank printed).toList := by
  have hanswers := answers fallback printed
  generalize decode fallback printed = r at hanswers
  cases hanswers with
  | noOutput h _ _ => simp [h]
  | document h _ _ => simp [h, mapError_type_ne]
  | moreThanOne h _ _ => simp [h]
  | notJson hne hnot hone => simp [hne, hnot, hone]

/-- An output is accepted, or its descriptor is refused, or it is no single message. -/
theorem decode_cases :
    (∃ d, decode fallback printed = .ok d) ∨ (∃ f, decode fallback printed = .error (.type f)) ∨
      decode fallback printed = .error (.extraction .noOutput) ∨
      decode fallback printed = .error (.extraction .moreThanOne) ∨
      ∃ problem, decode fallback printed = .error (.extraction (.notJson problem)) := by
  have hanswers := answers fallback printed
  generalize decode fallback printed = r at hanswers
  cases hanswers with
  | document _ _ _ => cases Descriptor.read fallback (stripBlank printed) <;> simp
  | noOutput _ _ _ | moreThanOne _ _ _ | notJson _ _ _ => simp

/-- **The two readers agree** on all outputs. The reader of extractors accepts what the other one
accepts of the trimmed output, and what the other one accepts as it stands. It refuses a descriptor
if and only if the other one does, with the same fault. What is left is no output, more than one
message, or no JSON. -/
theorem readers_agree :
    (∀ d, decode fallback printed = .ok d ↔
      stripBlank printed ≠ "" ∧ Descriptor.read fallback (stripBlank printed) = .ok d) ∧
    (∀ d, Descriptor.read fallback printed = .ok d → decode fallback printed = .ok d) ∧
    (∀ f, decode fallback printed = .error (.type f) ↔
      (∃ v, Json.read (stripBlank printed) = .ok v) ∧
        Descriptor.read fallback (stripBlank printed) = .error f) ∧
    (decode fallback printed = .error (.extraction .noOutput) ↔ stripBlank printed = "") ∧
    (decode fallback printed = .error (.extraction .moreThanOne) ↔
      Overfull (stripBlank printed).toList) ∧
    ((∃ problem, decode fallback printed = .error (.extraction (.notJson problem))) ↔
      stripBlank printed ≠ "" ∧ (∀ v, Json.read (stripBlank printed) ≠ .ok v) ∧
        ¬Overfull (stripBlank printed).toList) ∧
    ((∃ d, decode fallback printed = .ok d) ∨ (∃ f, decode fallback printed = .error (.type f)) ∨
      decode fallback printed = .error (.extraction .noOutput) ∨
      decode fallback printed = .error (.extraction .moreThanOne) ∨
      ∃ problem, decode fallback printed = .error (.extraction (.notJson problem))) := by
  refine ⟨decode_eq_ok_iff _ _, fun d hd => ?_, decode_eq_type_iff _ _, decode_eq_noOutput_iff _ _,
    decode_eq_moreThanOne_iff _ _, decode_eq_notJson_iff _ _, decode_cases _ _⟩
  exact (decode_eq_ok_iff fallback printed d).2 (descriptorRead_stripBlank hd)

end Outcomes

/-- A message of a module without outbound messages and flags. -/
def quietMessage : Json := .object [("moduleName", .string "App.Ports")]

theorem readers_agree_quiet :
    Descriptor.read none (quietMessage.write none) = .ok ⟨"App.Ports", .union [], none⟩ ∧
      decode none (quietMessage.write none) = .ok ⟨"App.Ports", .union [], none⟩ := by
  have htextual : quietMessage.Textual := by
    refine .object (by simp) ?_
    simp only [List.mem_singleton, forall_eq]
    exact .string "App.Ports"
  have hread : Descriptor.read none (quietMessage.write none) =
      .ok ⟨"App.Ports", .union [], none⟩ := by
    rw [descriptorRead_of_read (read_write none htextual)]
    rfl
  exact ⟨hread, (readers_agree none (quietMessage.write none)).2.1 _ hread⟩

end Extraction

end BoundaryTypes
