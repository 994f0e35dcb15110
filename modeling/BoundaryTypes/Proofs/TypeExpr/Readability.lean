/-
  `Readability` — a bare type is told from its text.

  The text is taken apart in layers. A type is a choice of one or more pieces with
  ` | ` between them; a piece is an atom with pairs of brackets behind it; an atom is
  a word, a literal, a map, a record, or a union in parentheses. The first characters
  show the form of an atom (`formOf`), and each layer shows where it ends, given what
  may follow it: no character of a word after an atom, no bracket either after a
  piece, and no further variant after a type.

  `reads_of_bare` goes through all layers at once, by induction on the type.
-/
import BoundaryTypes.Proofs.Json.Literal
import BoundaryTypes.Proofs.Text.Joined
import BoundaryTypes.Proofs.TypeExpr.Erasure

namespace BoundaryTypes.TypeExpr

open Json Text

/-! ### What may follow -/

/-- Whether a word ends before a text. -/
def wordEnds : List Char → Bool
  | [] => true
  | c :: _ => !(isIdentifierPart c || c == '\n')

/-- Whether a piece of a union ends before a text. -/
def pieceEnds : List Char → Bool
  | '[' :: _ => false
  | x => wordEnds x

/-- Whether a type ends before a text. -/
def typeEnds : List Char → Bool
  | ' ' :: '|' :: _ => false
  | x => pieceEnds x

theorem wordEnds_of_pieceEnds {x : List Char} (h : pieceEnds x = true) : wordEnds x = true := by
  unfold pieceEnds at h
  split at h
  · cases h
  · exact h

theorem pieceEnds_of_typeEnds {x : List Char} (h : typeEnds x = true) : pieceEnds x = true := by
  unfold typeEnds at h
  split at h
  · cases h
  · exact h

/-! ### Words -/

theorem isIdentifierTail_chars {s : List Char} (h : isIdentifierTail s = true) :
    ∀ c ∈ s, (isIdentifierPart c || c == '\n') = true := by
  induction s with
  | nil => intro c hc; cases hc
  | cons c s ih =>
    rw [isIdentifierTail] at h
    rw [List.forall_mem_cons]
    rcases Bool.or_eq_true _ _ ▸ h with h | h
    · obtain ⟨hc, hs⟩ := Bool.and_eq_true _ _ ▸ h
      refine ⟨by rw [hc, Bool.or_true], ?_⟩
      rw [List.isEmpty_iff.1 hs]
      simp
    · obtain ⟨hc, hs⟩ := Bool.and_eq_true _ _ ▸ h
      exact ⟨by rw [hc, Bool.true_or], ih hs⟩

/-- An identifier has a first character, and is made of characters that a word may have. -/
theorem isIdentifier_chars {name : String} (h : isIdentifier name = true) :
    (∃ c rest, name.toList = c :: rest ∧ isIdentifierStart c = true) ∧
      ∀ c ∈ name.toList, (isIdentifierPart c || c == '\n') = true := by
  unfold isIdentifier at h
  split at h
  · cases h
  · next c rest hname =>
    obtain ⟨hc, hrest⟩ := Bool.and_eq_true _ _ ▸ h
    refine ⟨⟨c, rest, hname, hc⟩, ?_⟩
    rw [hname, List.forall_mem_cons]
    refine ⟨?_, isIdentifierTail_chars hrest⟩
    rw [isIdentifierPart, hc, Bool.true_or, Bool.true_or]

/-- A text up to the first character that no word has. -/
def word (s : List Char) : List Char := s.takeWhile fun c => isIdentifierPart c || c == '\n'

/-- The word at the front of a text is an identifier, if what follows it cannot lengthen it. -/
theorem word_append {name : String} (h : isIdentifier name = true) {x : List Char}
    (hx : wordEnds x = true) : word (name.toList ++ x) = name.toList := by
  rw [word, List.takeWhile_append_of_pos (isIdentifier_chars h).2]
  cases x with
  | nil => rw [List.takeWhile_nil, List.append_nil]
  | cons c x =>
    rw [wordEnds, Bool.not_eq_true'] at hx
    rw [List.takeWhile_cons, hx, if_neg Bool.false_ne_true, List.append_nil]

/-- Two identifiers that begin the same text are the same if both end there. -/
theorem identifier_append_inj {m n : String} (hm : isIdentifier m = true)
    (hn : isIdentifier n = true) {x y : List Char} (hx : wordEnds x = true)
    (hy : wordEnds y = true) (h : m.toList ++ x = n.toList ++ y) : m = n ∧ x = y := by
  have hword : m.toList = n.toList := by
    rw [← word_append hm hx, ← word_append hn hy, h]
  rw [hword] at h
  exact ⟨String.toList_inj.1 hword, List.append_cancel_left h⟩

/-! ### Keys -/

/-- A bare key is never mistaken for a quoted one. -/
theorem identifier_append_ne_quote {m : String} (hm : isIdentifier m = true) (n : String)
    (x y : List Char) : m.toList ++ x ≠ (quote n).toList ++ y := by
  intro h
  obtain ⟨⟨c, rest, hc, hstart⟩, -⟩ := isIdentifier_chars hm
  rw [hc, toList_quote, quoteChars_append, List.cons_append, List.cons.injEq] at h
  rw [h.1] at hstart
  cases hstart

/-- Two keys that begin the same text are the same: a bare one does not begin with a quote. -/
theorem keyText_append_inj {m n : String} {x y : List Char} (hx : wordEnds x = true)
    (hy : wordEnds y = true) (h : (keyText m).toList ++ x = (keyText n).toList ++ y) :
    m = n ∧ x = y := by
  unfold keyText at h
  split at h
  · next hm =>
    split at h
    · next hn => exact identifier_append_inj hm hn hx hy h
    · exact (identifier_append_ne_quote hm n x y h).elim
  · split at h
    · next hn => exact (identifier_append_ne_quote hn m y x h.symm).elim
    · rw [toList_quote, toList_quote] at h
      obtain ⟨hmn, hxy⟩ := quoteChars_append_inj h
      exact ⟨String.toList_inj.1 hmn, hxy⟩

/-! ### Pieces: an atom and its brackets -/

/-- The type inside all lists. -/
def core : TypeExpr → TypeExpr
  | .listOf e => e.core
  | e => e

/-- The number of lists around the core. -/
def depth : TypeExpr → Nat
  | .listOf e => e.depth + 1
  | _ => 0

/-- A type in a number of lists. -/
def wrap : Nat → TypeExpr → TypeExpr
  | 0, e => e
  | n + 1, e => .listOf (wrap n e)

/-- A type is its core with as many lists around it as it is deep. -/
theorem wrap_core (e : TypeExpr) : wrap e.depth e.core = e := by
  induction e with
  | listOf e ih => rw [depth, core, wrap, ih]
  | _ => rfl

/-- Whether a type is a list. -/
def isList : TypeExpr → Bool
  | .listOf _ => true
  | _ => false

theorem isList_core (e : TypeExpr) : e.core.isList = false := by
  induction e with
  | listOf e ih => exact ih
  | _ => rfl

theorem Bare.core {e : TypeExpr} (h : e.Bare) : e.core.Bare := by
  induction h with
  | listOf _ ih => exact ih
  | primitive kind => exact .primitive kind
  | literal value => exact .literal value
  | reference h => exact .reference h
  | dictOf h _ => exact .dictOf h
  | record h _ => exact .record h
  | never => exact .never
  | union hbare hvariant _ => exact .union hbare hvariant

/-- The characters of an atom: a union of several variants stands in parentheses. -/
def atomChars (e : TypeExpr) : List Char :=
  if e.isWideUnion then '(' :: (e.inline.toList ++ [')']) else e.inline.toList

/-- Pairs of brackets. -/
def brackets : Nat → List Char
  | 0 => []
  | n + 1 => '[' :: ']' :: brackets n

theorem brackets_append (n : Nat) : brackets n ++ ['[', ']'] = brackets (n + 1) := by
  induction n with
  | zero => rfl
  | succ n ih => rw [brackets, List.cons_append, List.cons_append, ih]; rfl

/-- A type that is no choice of variants is its core with brackets behind it. -/
theorem toList_inline_eq {e : TypeExpr} (h : e.isWideUnion = false) :
    e.inline.toList = e.core.atomChars ++ brackets e.depth := by
  induction e with
  | listOf e ih =>
    rw [inline_listOf]
    show _ = e.core.atomChars ++ brackets (e.depth + 1)
    rw [← brackets_append, ← List.append_assoc]
    split
    · next hwide =>
      -- The only type that needs parentheses inside a list is a choice.
      cases e with
      | union variants =>
        simp only [String.toList_append]
        show _ = atomChars (union variants) ++ [] ++ _
        rw [atomChars, if_pos hwide, List.append_nil, List.cons_append,
          List.append_assoc _ [')'], List.append_assoc]
        rfl
      | _ => cases hwide
    · next hwide =>
      rw [String.toList_append, ih (Bool.eq_false_iff.2 hwide)]
      rfl
  | union variants ih =>
    show _ = atomChars (union variants) ++ []
    rw [atomChars, h, if_neg Bool.false_ne_true, List.append_nil]
  | _ => exact (List.append_nil _).symm

/-- How many brackets follow an element is read off the text, since none of what follows begins with
one. -/
theorem brackets_append_inj {m n : Nat} {x y : List Char} (hx : pieceEnds x = true)
    (hy : pieceEnds y = true) (h : brackets m ++ x = brackets n ++ y) : m = n ∧ x = y := by
  induction m generalizing n with
  | zero =>
    cases n with
    | zero => exact ⟨rfl, h⟩
    | succ n =>
      obtain rfl : x = '[' :: ']' :: (brackets n ++ y) := h
      cases hx
  | succ m ih =>
    cases n with
    | zero =>
      obtain rfl : y = '[' :: ']' :: (brackets m ++ x) := h.symm
      cases hy
    | succ n =>
      obtain ⟨rfl, hxy⟩ := ih (List.cons.inj (List.cons.inj h).2).2
      exact ⟨rfl, hxy⟩

theorem wordEnds_brackets (n : Nat) {x : List Char} (hx : pieceEnds x = true) :
    wordEnds (brackets n ++ x) = true := by
  cases n with
  | zero => exact wordEnds_of_pieceEnds hx
  | succ n => rfl

/-! ### The form of an atom -/

/-- The forms of atoms, as their first characters show them. -/
inductive Form where
  | word
  | literal
  | map
  | record
  | parenthesis
deriving DecidableEq, Repr

/-- The form of the atom at the beginning of a text. -/
def formOf : List Char → Form
  | '"' :: _ => .literal
  | '(' :: _ => .parenthesis
  | '\x7b' :: ' ' :: '[' :: _ => .map
  | '\x7b' :: _ => .record
  | _ => .word

/-- The form of an atom. -/
def form : TypeExpr → Form
  | .literal _ => .literal
  | .dictOf _ => .map
  | .record _ => .record
  | .union (_ :: _ :: _) => .parenthesis
  | _ => .word

/-- A text that begins with an identifier is that of a word. -/
theorem formOf_identifier {name : String} (h : isIdentifier name = true) (x : List Char) :
    formOf (name.toList ++ x) = .word := by
  obtain ⟨⟨c, rest, hc, hstart⟩, -⟩ := isIdentifier_chars h
  rw [hc, List.cons_append]
  unfold formOf
  split
  · next heq => rw [(List.cons.inj heq).1] at hstart; cases hstart
  · next heq => rw [(List.cons.inj heq).1] at hstart; cases hstart
  · next heq => rw [(List.cons.inj heq).1] at hstart; cases hstart
  · next heq => rw [(List.cons.inj heq).1] at hstart; cases hstart
  · rfl

/-- The word of an atom that is one. -/
def word? : TypeExpr → Option String
  | .primitive kind => some kind.word
  | .reference name => some name
  | .union [] => some "never"
  | _ => none

theorem isTypeName_eq_false_of_mem {name : String} (h : name ∈ reservedTypeNames) :
    isTypeName name = false := by
  rw [isTypeName, List.contains_iff_mem.2 h, Bool.not_true, Bool.and_false]

theorem isIdentifier_of_word? {e : TypeExpr} {w : String} (h : e.Bare) (hw : e.word? = some w) :
    isIdentifier w = true := by
  cases h with
  | primitive kind => cases hw; cases kind <;> decide +kernel
  | never => cases hw; decide +kernel
  | reference hname => cases hw; exact (Bool.and_eq_true _ _ ▸ hname).1
  | _ => cases hw

/-- The atom that a word stands for. -/
def ofWord (w : String) : TypeExpr :=
  if w = "never" then .union []
  else
    match [Primitive.string, .number, .boolean, .null].find? fun kind => kind.word = w with
    | some kind => .primitive kind
    | none => .reference w

/-- A word stands for one atom: no type may be named like a primitive. -/
theorem ofWord_eq {e : TypeExpr} {w : String} (h : e.Bare) (hw : e.word? = some w) :
    ofWord w = e := by
  cases h with
  | primitive kind => cases hw; cases kind <;> decide +kernel
  | never => cases hw; rfl
  | @reference name hname =>
    obtain rfl := Option.some.inj hw
    -- A reference bears no reserved name, and all primitives and `never` are reserved.
    have hreserved : ∀ word ∈ reservedTypeNames, word ≠ name := by
      rintro word hword rfl
      rw [isTypeName_eq_false_of_mem hword] at hname
      cases hname
    have hnone : [Primitive.string, .number, .boolean, .null].find?
        (fun kind => kind.word = name) = none := by
      rw [List.find?_eq_none]
      intro kind _ heq
      refine hreserved kind.word ?_ (of_decide_eq_true heq)
      cases kind <;> decide +kernel
    rw [ofWord, if_neg (hreserved "never" (by decide +kernel)).symm, hnone]
  | _ => cases hw

/-! ### The characters of each form -/

theorem atomChars_of_word? {e : TypeExpr} {w : String} (h : e.word? = some w) :
    e.atomChars = w.toList := by
  unfold word? at h
  split at h
  · cases h; rfl
  · cases h; rfl
  · cases h; rfl
  · cases h

theorem atomChars_literal (value : String) : (literal value).atomChars = quoteChars value.toList :=
  toList_quote value

theorem atomChars_dictOf (e : TypeExpr) :
    (dictOf e).atomChars =
      "\x7b [key: string]: ".toList ++ (e.inline.toList ++ " \x7d".toList) := by
  show (dictOf e).inline.toList = _
  rw [inline_dictOf]
  simp only [String.toList_append, List.append_assoc]

/-- The characters of a field: key, mark and type. -/
def fieldChars (f : String × TypeExpr) : List Char :=
  (keyText f.1).toList ++ ((optionalMark f.2).toList ++ (": ".toList ++ f.2.inline.toList))

theorem atomChars_record_cons (f : String × TypeExpr) (fields : List (String × TypeExpr)) :
    (record (f :: fields)).atomChars =
      "\x7b ".toList ++ (fieldChars f ++
        ((fields.flatMap fun g => "; ".toList ++ fieldChars g) ++ " \x7d".toList)) := by
  show (record (f :: fields)).inline.toList = _
  rw [inline_record_cons, fieldTexts_eq, List.map_cons]
  simp only [String.toList_append, toList_intercalate_cons, List.flatMap_map, fieldChars,
    List.append_assoc]

/-- The pieces between which a type is a choice. -/
def pieces : TypeExpr → List TypeExpr
  | .union (v :: w :: rest) => v :: w :: rest
  | e => [e]

/-- The characters of a choice of pieces. -/
def choiceChars : List TypeExpr → List Char
  | [] => []
  | v :: rest => v.inline.toList ++ rest.flatMap fun w => " | ".toList ++ w.inline.toList

theorem toList_inline_pieces (e : TypeExpr) : e.inline.toList = choiceChars e.pieces := by
  unfold pieces
  split
  · next v w rest =>
    rw [inline_union_cons, variantTexts_eq, List.map_cons, toList_intercalate_cons,
      List.flatMap_map]
    rfl
  · rw [choiceChars, List.flatMap_nil, List.append_nil]

theorem atomChars_union (v w : TypeExpr) (rest : List TypeExpr) :
    (union (v :: w :: rest)).atomChars =
      '(' :: ((union (v :: w :: rest)).inline.toList ++ [')']) := rfl

/-- The first characters of an atom show its form. -/
theorem formOf_atomChars {e : TypeExpr} (h : e.Bare) (hlist : e.isList = false) (x : List Char) :
    formOf (e.atomChars ++ x) = e.form := by
  have hword : ∀ {e : TypeExpr} {w : String}, e.Bare → e.word? = some w → e.form = .word →
      formOf (e.atomChars ++ x) = e.form := by
    intro e w hbare hw hform
    rw [atomChars_of_word? hw, formOf_identifier (isIdentifier_of_word? hbare hw), hform]
  cases h with
  | primitive kind => exact hword (.primitive kind) rfl rfl
  | reference hname => exact hword (.reference hname) rfl rfl
  | never => exact hword .never rfl rfl
  | listOf => cases hlist
  | literal value => rw [atomChars_literal, quoteChars_append]; rfl
  | dictOf he => rw [atomChars_dictOf]; rfl
  | union hbare hvariant => rfl
  | @record fields _ =>
    cases fields with
    | nil => rfl
    | cons f fields =>
      -- A key does not begin like the keys of a map.
      rw [atomChars_record_cons]
      simp only [fieldChars, List.append_assoc]
      unfold keyText
      split
      · next hkey =>
        obtain ⟨⟨c, rest, hc, hstart⟩, -⟩ := isIdentifier_chars hkey
        rw [hc]
        show formOf ('\x7b' :: ' ' :: c :: _) = _
        unfold formOf
        split
        · next heq => cases heq
        · next heq => cases heq
        · next heq =>
          obtain rfl := (List.cons.inj (List.cons.inj (List.cons.inj heq).2).2).1
          cases hstart
        · rfl
        · next hno => exact (hno _ rfl).elim
      · rw [toList_quote, quoteChars_append]
        rfl

/-! ### Layer by layer -/

/-- An atom is told from every text that begins with it. -/
def AtomReads (a : TypeExpr) : Prop :=
  ∀ {b : TypeExpr} {x y : List Char}, b.Bare → b.isList = false → wordEnds x = true →
    wordEnds y = true → a.atomChars ++ x = b.atomChars ++ y → a = b ∧ x = y

/-- A piece is told from every text that begins with it. -/
def PieceReads (a : TypeExpr) : Prop :=
  ∀ {b : TypeExpr} {x y : List Char}, b.Bare → b.isWideUnion = false → pieceEnds x = true →
    pieceEnds y = true → a.inline.toList ++ x = b.inline.toList ++ y → a = b ∧ x = y

/-- A type is told from every text that begins with it. -/
def Reads (a : TypeExpr) : Prop :=
  ∀ {b : TypeExpr} {x y : List Char}, b.Bare → typeEnds x = true → typeEnds y = true →
    a.inline.toList ++ x = b.inline.toList ++ y → a = b ∧ x = y

/-- Equal texts have equal first characters, and these tell the forms of types apart. -/
theorem form_eq {a b : TypeExpr} (ha : a.Bare) (hb : b.Bare) (hla : a.isList = false)
    (hlb : b.isList = false) {x y : List Char} (h : a.atomChars ++ x = b.atomChars ++ y) :
    a.form = b.form := by
  rw [← formOf_atomChars ha hla x, ← formOf_atomChars hb hlb y, h]

theorem exists_word? {e : TypeExpr} (h : e.Bare) (hlist : e.isList = false)
    (hform : e.form = .word) : ∃ w, e.word? = some w := by
  cases h with
  | primitive kind => exact ⟨_, rfl⟩
  | reference _ => exact ⟨_, rfl⟩
  | never => exact ⟨_, rfl⟩
  | listOf _ => cases hlist
  | _ => cases hform

theorem atomReads_word {a : TypeExpr} {w : String} (ha : a.Bare) (hla : a.isList = false)
    (hform : a.form = .word) (hw : a.word? = some w) : a.AtomReads := by
  intro b x y hb hlb hx hy h
  obtain ⟨v, hv⟩ := exists_word? hb hlb (form_eq ha hb hla hlb h ▸ hform)
  rw [atomChars_of_word? hw, atomChars_of_word? hv] at h
  obtain ⟨rfl, hxy⟩ := identifier_append_inj (isIdentifier_of_word? ha hw)
    (isIdentifier_of_word? hb hv) hx hy h
  exact ⟨(ofWord_eq ha hw).symm.trans (ofWord_eq hb hv), hxy⟩

/-- A literal is read up to its closing quote. -/
theorem atomReads_literal (value : String) : (literal value).AtomReads := by
  intro b x y hb hlb _ _ h
  have hform := form_eq (.literal value) hb rfl hlb h
  cases hb with
  | literal other =>
    rw [atomChars_literal, atomChars_literal] at h
    obtain ⟨hvalue, hxy⟩ := quoteChars_append_inj h
    exact ⟨by rw [String.toList_inj.1 hvalue], hxy⟩
  | listOf _ => cases hlb
  | _ => cases hform

/-- A dictionary is read by its key type and its braces, around the type of its values. -/
theorem atomReads_dictOf {e : TypeExpr} (he : e.Bare) (ih : e.Reads) : (dictOf e).AtomReads := by
  intro b x y hb hlb _ _ h
  have hform := form_eq (.dictOf he) hb rfl hlb h
  cases hb with
  | @dictOf other hother =>
    rw [atomChars_dictOf, atomChars_dictOf] at h
    simp only [List.append_assoc] at h
    obtain ⟨rfl, hrest⟩ := ih hother rfl rfl (List.append_cancel_left h)
    exact ⟨rfl, List.append_cancel_left hrest⟩
  | listOf _ => cases hlb
  | _ => cases hform

/-! ### Fields -/

theorem optionalMark_optional (e : TypeExpr) : optionalMark (.optional e) = "?" := rfl

/-- A type marks the key of its field, or nothing is to be taken off it. -/
theorem optional_or_unmarked_eq (e : TypeExpr) :
    (∃ inner, e = .optional inner) ∨ e.unmarked = e ∧ optionalMark e = "" := by
  cases e with
  | optional inner => exact .inl ⟨inner, rfl⟩
  | _ => exact .inr ⟨rfl, rfl⟩

/-- Where the mark of a key ends, a colon comes next. -/
theorem mark_append_inj {a b : TypeExpr} {x y : List Char}
    (h : (optionalMark a).toList ++ (": ".toList ++ x) =
      (optionalMark b).toList ++ (": ".toList ++ y)) : optionalMark a = optionalMark b ∧ x = y := by
  rcases optional_or_unmarked_eq a with ⟨i, rfl⟩ | ⟨-, hma⟩
  · rcases optional_or_unmarked_eq b with ⟨j, rfl⟩ | ⟨-, hmb⟩
    · exact ⟨rfl, List.append_cancel_left (List.append_cancel_left h)⟩
    · rw [hmb, optionalMark_optional] at h
      cases (List.cons.inj h).1
  · rcases optional_or_unmarked_eq b with ⟨j, rfl⟩ | ⟨-, hmb⟩
    · rw [hma, optionalMark_optional] at h
      cases (List.cons.inj h).1
    · rw [hma, hmb] at h ⊢
      exact ⟨rfl, List.append_cancel_left h⟩

/-- The mark of a key and what follows it tell a field's type. -/
theorem marked_append_inj {a b : TypeExpr} (ha : a.unmarked.Reads) (hb : b.unmarked.Bare)
    {x y : List Char} (hx : typeEnds x = true) (hy : typeEnds y = true)
    (h : (optionalMark a).toList ++ (": ".toList ++ (a.inline.toList ++ x)) =
      (optionalMark b).toList ++ (": ".toList ++ (b.inline.toList ++ y))) : a = b ∧ x = y := by
  -- The mark is cut off first: what is under it has the text of the type, and tells itself.
  obtain ⟨hmark, htype⟩ := mark_append_inj h
  rw [← inline_unmarked a, ← inline_unmarked b] at htype
  obtain ⟨hab, hxy⟩ := ha hb hx hy htype
  refine ⟨?_, hxy⟩
  rcases optional_or_unmarked_eq a with ⟨i, rfl⟩ | ⟨hua, hma⟩
  · rcases optional_or_unmarked_eq b with ⟨j, rfl⟩ | ⟨hub, hmb⟩
    · exact congrArg optional hab
    · rw [hmb, optionalMark_optional] at hmark
      exact absurd hmark (by decide)
  · rcases optional_or_unmarked_eq b with ⟨j, rfl⟩ | ⟨hub, hmb⟩
    · rw [hma, optionalMark_optional] at hmark
      exact absurd hmark (by decide)
    · rw [← hua, hab, hub]

theorem wordEnds_mark (e : TypeExpr) (x : List Char) :
    wordEnds ((optionalMark e).toList ++ (": ".toList ++ x)) = true := by
  rcases optional_or_unmarked_eq e with ⟨i, rfl⟩ | ⟨-, h⟩
  · rw [optionalMark_optional]
    rfl
  · rw [h]
    rfl

/-- A field is read off a text: its key, its mark, and its type up to the end of the field. -/
theorem fieldChars_append_inj {f g : String × TypeExpr} (hf : f.2.unmarked.Reads)
    (hg : g.2.unmarked.Bare) {x y : List Char} (hx : typeEnds x = true) (hy : typeEnds y = true)
    (h : fieldChars f ++ x = fieldChars g ++ y) : f = g ∧ x = y := by
  unfold fieldChars at h
  simp only [List.append_assoc] at h
  obtain ⟨hkey, hrest⟩ := keyText_append_inj (wordEnds_mark _ _) (wordEnds_mark _ _) h
  obtain ⟨htype, hxy⟩ := marked_append_inj hf hg hx hy hrest
  exact ⟨Prod.ext hkey htype, hxy⟩

/-- A record is read field after field, as the fields are. -/
theorem atomReads_record {fields : List (String × TypeExpr)}
    (hbare : ∀ f ∈ fields, f.2.unmarked.Bare) (ih : ∀ f ∈ fields, f.2.unmarked.Reads) :
    (record fields).AtomReads := by
  intro b x y hb hlb _ _ h
  have hform := form_eq (.record hbare) hb rfl hlb h
  cases hb with
  | @record others hothers =>
    -- A record without fields has no blank after its brace; any other is a list that is joined.
    cases fields with
    | nil =>
      cases others with
      | nil => exact ⟨rfl, (List.cons.inj (List.cons.inj h).2).2⟩
      | cons g others =>
        rw [atomChars_record_cons] at h
        cases (List.cons.inj (List.cons.inj h).2).1
    | cons f fields =>
      cases others with
      | nil =>
        rw [atomChars_record_cons] at h
        cases (List.cons.inj (List.cons.inj h).2).1
      | cons g others =>
        rw [atomChars_record_cons, atomChars_record_cons] at h
        simp only [List.append_assoc] at h
        obtain ⟨hfields, hrest⟩ := joined_cons_append_inj (fun z => typeEnds z = true)
          (fun _ => rfl)
          (fun p hp q hq z w hz hw => fieldChars_append_inj (ih p hp) (hothers q hq) hz hw)
          rfl rfl (fun _ heq => by cases (List.cons.inj heq).1)
          (fun _ heq => by cases (List.cons.inj heq).1) (List.append_cancel_left h)
        exact ⟨congrArg record hfields, List.append_cancel_left hrest⟩
  | listOf _ => cases hlb
  | _ => cases hform

/-! ### Pieces and choices -/

/-- A piece is read as its core, and then the brackets behind it. -/
theorem pieceReads_of_atomReads {a : TypeExpr} (hwide : a.isWideUnion = false)
    (h : a.core.AtomReads) : a.PieceReads := by
  intro b x y hb hbwide hx hy heq
  rw [toList_inline_eq hwide, toList_inline_eq hbwide, List.append_assoc, List.append_assoc] at heq
  obtain ⟨hcore, hrest⟩ := h hb.core (isList_core b) (wordEnds_brackets _ hx)
    (wordEnds_brackets _ hy) heq
  obtain ⟨hdepth, hxy⟩ := brackets_append_inj hx hy hrest
  exact ⟨by rw [← wrap_core a, ← wrap_core b, hcore, hdepth], hxy⟩

/-- The pieces of a bare type are bare and have no choice of their own. -/
theorem Bare.pieces {e : TypeExpr} (h : e.Bare) :
    ∀ p ∈ e.pieces, p.Bare ∧ p.isWideUnion = false := by
  cases h with
  | @union v w rest hbare hvariant =>
    intro p hp
    exact ⟨hbare p hp, isWideUnion_eq_false_of_isVariant (hvariant p hp)⟩
  | never => exact List.forall_mem_singleton.2 ⟨.never, rfl⟩
  | primitive kind => exact List.forall_mem_singleton.2 ⟨.primitive kind, rfl⟩
  | literal value => exact List.forall_mem_singleton.2 ⟨.literal value, rfl⟩
  | reference h => exact List.forall_mem_singleton.2 ⟨.reference h, rfl⟩
  | listOf h => exact List.forall_mem_singleton.2 ⟨.listOf h, rfl⟩
  | dictOf h => exact List.forall_mem_singleton.2 ⟨.dictOf h, rfl⟩
  | record h => exact List.forall_mem_singleton.2 ⟨.record h, rfl⟩

/-- A type is the choice of its pieces. -/
theorem collapse_pieces (e : TypeExpr) : collapse e.pieces = e := by
  unfold pieces
  split
  · rfl
  · rfl

theorem pieces_ne_nil (e : TypeExpr) : e.pieces ≠ [] := by
  unfold pieces
  split <;> exact List.cons_ne_nil _ _

/-- A choice is read piece after piece. -/
theorem reads_of_pieceReads {a : TypeExpr} (h : ∀ p ∈ a.pieces, p.PieceReads) : a.Reads := by
  intro b x y hb hx hy heq
  rw [toList_inline_pieces, toList_inline_pieces] at heq
  obtain ⟨p, ps, hps⟩ := List.exists_cons_of_ne_nil a.pieces_ne_nil
  obtain ⟨q, qs, hqs⟩ := List.exists_cons_of_ne_nil b.pieces_ne_nil
  have hbpieces := hb.pieces
  rw [hps] at h heq
  rw [hqs] at hbpieces heq
  rw [choiceChars, choiceChars, List.append_assoc, List.append_assoc] at heq
  -- Where a type ends, no further variant follows.
  have hgoes : ∀ {x : List Char}, typeEnds x = true → ∀ z, x ≠ " | ".toList ++ z := by
    rintro x hx z rfl
    cases hx
  obtain ⟨hpieces, hxy⟩ := joined_cons_append_inj (fun z => pieceEnds z = true)
    (fun _ => rfl)
    (fun p hp q hq z w hz hw => h p hp (hbpieces q hq).1 (hbpieces q hq).2 hz hw)
    (pieceEnds_of_typeEnds hx) (pieceEnds_of_typeEnds hy) (hgoes hx) (hgoes hy) heq
  exact ⟨by rw [← collapse_pieces a, ← collapse_pieces b, hps, hqs, hpieces], hxy⟩

/-- A choice in parentheses is read up to the closing one. -/
theorem atomReads_union {v w : TypeExpr} {rest : List TypeExpr}
    (hbare : (union (v :: w :: rest)).Bare) (h : (union (v :: w :: rest)).Reads) :
    (union (v :: w :: rest)).AtomReads := by
  intro b x y hb hlb _ _ heq
  have hform := form_eq hbare hb rfl hlb heq
  cases hb with
  | union hothers hvariant =>
    rw [atomChars_union, atomChars_union, List.cons_append, List.cons_append, List.append_assoc,
      List.append_assoc] at heq
    obtain ⟨hab, hrest⟩ := h (.union hothers hvariant) rfl rfl (List.cons.inj heq).2
    exact ⟨hab, (List.cons.inj hrest).2⟩
  | listOf _ => cases hlb
  | _ => cases hform

/-- All layers of a bare type can be read. -/
theorem reads_of_bare {a : TypeExpr} (h : a.Bare) : a.core.AtomReads ∧ a.Reads := by
  -- A type of one piece is read by its core.
  have hone : ∀ {a : TypeExpr}, a.pieces = [a] → a.isWideUnion = false → a.core.AtomReads →
      a.core.AtomReads ∧ a.Reads := by
    intro a hpieces hwide hatom
    refine ⟨hatom, reads_of_pieceReads ?_⟩
    rw [hpieces, List.forall_mem_singleton]
    exact pieceReads_of_atomReads hwide hatom
  induction h with
  | primitive kind => exact hone rfl rfl (atomReads_word (.primitive kind) rfl rfl rfl)
  | reference hname => exact hone rfl rfl (atomReads_word (.reference hname) rfl rfl rfl)
  | never => exact hone rfl rfl (atomReads_word .never rfl rfl rfl)
  | literal value => exact hone rfl rfl (atomReads_literal value)
  | listOf _ ih => exact hone rfl rfl ih.1
  | dictOf he ih => exact hone rfl rfl (atomReads_dictOf he ih.2)
  | record hbare ih => exact hone rfl rfl (atomReads_record hbare fun f hf => (ih f hf).2)
  | @union v w rest hbare hvariant ih =>
    have hreads : (union (v :: w :: rest)).Reads := by
      refine reads_of_pieceReads fun p hp => ?_
      exact pieceReads_of_atomReads (isWideUnion_eq_false_of_isVariant (hvariant p hp)) (ih p hp).1
    exact ⟨atomReads_union (.union hbare hvariant) hreads, hreads⟩

/-- The text of a bare type determines the type. -/
theorem inline_inj {a b : TypeExpr} (ha : a.Bare) (hb : b.Bare) (h : a.inline = b.inline) :
    a = b := by
  refine ((reads_of_bare ha).2 (x := []) (y := []) hb rfl rfl ?_).1
  rw [h]

end BoundaryTypes.TypeExpr

namespace BoundaryTypes.Session

open Outcome

theorem shown_of_inline {e : TypeExpr} {route : Route} {s s' : Session} {text : String}
    (h : (inline e route).run s = .ok text s') : text = e.inline ∧ e.Shown := by
  obtain ⟨_, t, hcheck, htext⟩ := bind_run_eq_ok.1 h
  exact ⟨(pure_run_eq_ok.1 htext).1.symm, TypeExpr.shown_of_check (fun _ hn => by cases hn) hcheck⟩

/-- **Texts are faithful.** Two types that fresh sessions accept have the same text exactly when
they differ only in what the text does not show: the definitions of aliases, and unions of a single
variant around it. -/
theorem inline_eq_iff_erase_eq {e₁ e₂ : TypeExpr} {route₁ route₂ : Route}
    {reserved₁ reserved₂ : List String} {text₁ text₂ : String} {s₁ s₂ : Session}
    (h₁ : (inline e₁ route₁).run (empty reserved₁) = .ok text₁ s₁)
    (h₂ : (inline e₂ route₂).run (empty reserved₂) = .ok text₂ s₂) :
    text₁ = text₂ ↔ e₁.erase = e₂.erase := by
  obtain ⟨rfl, hshown₁⟩ := shown_of_inline h₁
  obtain ⟨rfl, hshown₂⟩ := shown_of_inline h₂
  rw [← hshown₁.text, ← hshown₂.text]
  constructor
  · intro h
    exact TypeExpr.inline_inj hshown₁.bare hshown₂.bare h
  · intro h
    rw [h]

/-- The definitions of two aliases of one name do not show. -/
theorem inline_eq_iff_erase_eq_tree :
    "Tree[]" = "Tree[]" ↔
      (TypeExpr.listOf (.alias "Tree" (.listOf (.reference "Tree")))).erase =
        (TypeExpr.listOf (.alias "Tree" (.primitive .string))).erase :=
  @inline_eq_iff_erase_eq _ _ [] [] [] [] _ _ _ _ rfl rfl

end BoundaryTypes.Session
