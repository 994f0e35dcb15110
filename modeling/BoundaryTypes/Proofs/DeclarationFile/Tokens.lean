/-
  `Tokens` — which names a reader finds in a declaration file.

  A name that is printed as it is was accepted as an identifier, and an identifier is a token,
  or a token and a line feed (`isIdentifier_iff`). The line feed is no part of what a reader
  takes for the name: he stops before it. So the names of a file are the ones that are read
  if and only if none of them ends a line (`generate_tokens`); a name that does passes the
  reserved words, the names bound already and the keys of its record, under another name.
-/
import BoundaryTypes.Proofs.DeclarationFile.Acceptance
import BoundaryTypes.Proofs.DeclarationFile.Closed
import BoundaryTypes.Proofs.TypeExpr.Readability

namespace BoundaryTypes

open Json TypeExpr

variable {name : String}

/-! ### Tokens -/

/-- Whether a name is one token from its first to its last character. -/
def isToken (name : String) : Bool :=
  match name.toList with
  | [] => false
  | c :: rest => isIdentifierStart c && rest.all isIdentifierPart

/-- Whether a name ends in a line feed. -/
def EndsLine (name : String) : Prop := name.toList.getLast? = some '\n'

instance : DecidablePred EndsLine := fun name =>
  inferInstanceAs (Decidable (name.toList.getLast? = some '\n'))

/-- The token that a reader takes from the beginning of a text. -/
def readToken (s : List Char) : String := String.ofList (s.takeWhile isIdentifierPart)

theorem isToken_eq_true : isToken name = true ↔
    ∃ c rest, name.toList = c :: rest ∧ isIdentifierStart c = true ∧
      ∀ p ∈ rest, isIdentifierPart p = true := by
  unfold isToken
  split
  · next h => simp [h]
  · next c rest h =>
    rw [h, Bool.and_eq_true, List.all_eq_true]
    constructor
    · intro hname
      exact ⟨c, rest, rfl, hname⟩
    · rintro ⟨_, _, heq, hname⟩
      cases heq
      exact hname

theorem isToken_chars (h : isToken name = true) : ∀ c ∈ name.toList, isIdentifierPart c = true := by
  obtain ⟨c, rest, hname, hc, hrest⟩ := isToken_eq_true.1 h
  rw [hname, List.forall_mem_cons]
  refine ⟨?_, hrest⟩
  rw [isIdentifierPart, hc, Bool.true_or]

theorem not_endsLine_of_isToken (h : isToken name = true) : ¬ EndsLine name := by
  intro hends
  have hpart := isToken_chars h '\n' (List.mem_of_getLast? hends)
  exact absurd hpart (by decide)

theorem isIdentifierTail_iff {s : List Char} : isIdentifierTail s = true ↔
    ∃ t, (∀ c ∈ t, isIdentifierPart c = true) ∧ (s = t ∨ s = t ++ ['\n']) := by
  induction s with
  | nil => exact ⟨fun _ => ⟨[], nofun, .inl rfl⟩, fun _ => rfl⟩
  | cons c s ih =>
    rw [isIdentifierTail, Bool.or_eq_true, Bool.and_eq_true, Bool.and_eq_true, ih]
    constructor
    · rintro (⟨hc, hs⟩ | ⟨hc, t, ht, hs⟩)
      · -- A line feed is accepted when nothing follows it.
        refine ⟨[], nofun, .inr ?_⟩
        rw [List.isEmpty_iff.1 hs, eq_of_beq hc]
        rfl
      · refine ⟨c :: t, List.forall_mem_cons.2 ⟨hc, ht⟩, hs.imp ?_ ?_⟩
        · exact congrArg (c :: ·)
        · exact congrArg (c :: ·)
    · rintro ⟨t, ht, hs⟩
      -- An empty tail in front of a line feed is the accepted end; otherwise both go on alike.
      cases t with
      | nil =>
        rcases hs with hs | hs
        · cases hs
        · cases hs
          exact .inl ⟨rfl, rfl⟩
      | cons p t =>
        rw [List.cons_append, List.cons.injEq, List.cons.injEq, ← and_or_left] at hs
        obtain ⟨rfl, hs⟩ := hs
        rw [List.forall_mem_cons] at ht
        exact .inr ⟨ht.1, t, ht.2, hs⟩

/-- An identifier is a token, or a token and a line feed. -/
theorem isIdentifier_iff : isIdentifier name = true ↔
    ∃ token, isToken token = true ∧ (name = token ∨ name = token ++ "\n") := by
  have hsame (token : String) : name = token ↔ name.toList = token.toList :=
    String.toList_inj.symm
  -- The statement is about characters; the first one is the only one with a rule of its own.
  have hfeed (token : String) : name = token ++ "\n" ↔ name.toList = token.toList ++ ['\n'] := by
    rw [hsame, String.toList_append]
    rfl
  simp only [hfeed, hsame, isToken_eq_true]
  unfold isIdentifier
  constructor
  · intro h
    split at h
    · cases h
    · next c rest hname =>
      obtain ⟨hc, hrest⟩ := Bool.and_eq_true _ _ ▸ h
      obtain ⟨t, ht, hs⟩ := isIdentifierTail_iff.1 hrest
      refine ⟨String.ofList (c :: t), ⟨c, t, String.toList_ofList, hc, ht⟩, ?_⟩
      rw [String.toList_ofList, hname]
      exact hs.imp (congrArg (c :: ·)) (congrArg (c :: ·))
  · rintro ⟨token, ⟨c, t, htoken, hc, ht⟩, hs⟩
    rw [htoken] at hs
    obtain ⟨s, hname, hs⟩ : ∃ s, name.toList = c :: s ∧ (s = t ∨ s = t ++ ['\n']) := by
      rcases hs with hs | hs
      · exact ⟨t, hs, .inl rfl⟩
      · exact ⟨t ++ ['\n'], hs, .inr rfl⟩
    rw [hname]
    exact Bool.and_eq_true _ _ ▸ ⟨hc, isIdentifierTail_iff.2 ⟨t, ht, hs⟩⟩

/-- An identifier is a token if and only if it does not end a line. -/
theorem isToken_iff (h : isIdentifier name = true) : isToken name = true ↔ ¬ EndsLine name := by
  refine ⟨not_endsLine_of_isToken, fun hends => ?_⟩
  obtain ⟨token, htoken, rfl | rfl⟩ := isIdentifier_iff.1 h
  · exact htoken
  · refine absurd ?_ hends
    rw [EndsLine, String.toList_append]
    exact List.getLast?_concat

/-- What follows a name does not change what is read of it, when no name goes on like that. -/
theorem readToken_append {s x : List Char} (hx : wordEnds x = true) :
    readToken (s ++ x) = readToken s := by
  -- A reader stops at the first character of `x`, whatever follows it.
  have hstop : x.takeWhile isIdentifierPart = [] := by
    cases x with
    | nil => rfl
    | cons c x =>
      rw [wordEnds, Bool.not_eq_true', Bool.or_eq_false_iff] at hx
      rw [List.takeWhile_cons, hx.1, if_neg Bool.false_ne_true]
  rw [readToken, readToken, List.takeWhile_append, hstop, List.append_nil]
  split
  · next hlength => rw [(List.takeWhile_prefix _).eq_of_length hlength]
  · rfl

/-- A token is read as it is. -/
theorem readToken_of_isToken (h : isToken name = true) : readToken name.toList = name := by
  have htake : (name.toList ++ []).takeWhile isIdentifierPart = name.toList ++ [] :=
    List.takeWhile_append_of_pos (isToken_chars h)
  rw [List.append_nil] at htake
  rw [readToken, htake, String.ofList_toList]

/-! ### Keys -/

/-- The key that a reader takes from the text of a field: the text of a literal, or a token. -/
def readKey : List Char → String
  | '"' :: rest =>
    match readQuoted 0 rest with
    | .ok (key, _) => String.ofList key
    | .error _ => ""
  | s => readToken s

/-- A key that is no bare name with a line feed is read as it is. -/
theorem readKey_keyText {x : List Char} (hends : keyText name = name → ¬ EndsLine name)
    (hx : wordEnds x = true) : readKey ((keyText name).toList ++ x) = name := by
  unfold keyText at hends ⊢
  split
  · next h =>
    rw [if_pos h] at hends
    have htoken := (isToken_iff h).2 (hends rfl)
    obtain ⟨c, rest, hname, hc, -⟩ := isToken_eq_true.1 htoken
    -- A bare key begins like a name, so it is not taken for a literal.
    have hkey : readKey (name.toList ++ x) = readToken (name.toList ++ x) := by
      rw [hname, List.cons_append]
      unfold readKey
      split
      · next heq =>
        rw [(List.cons.inj heq).1] at hc
        cases hc
      · rfl
    rw [hkey, readToken_append hx, readToken_of_isToken htoken]
  · -- A quoted key is a literal, and is read up to its closing quote.
    rw [toList_quote, quoteChars_append]
    rw [readKey, readQuoted_flatMap]
    exact String.ofList_toList

/-- A literal is longer than its text. -/
theorem quote_ne (s : String) : quote s ≠ s := by
  -- No character is shortened, and there are two quotes besides.
  have hlength (cs : List Char) : cs.length ≤ (cs.flatMap quoteChar).length := by
    induction cs with
    | nil => exact Nat.le_refl _
    | cons c cs ih =>
      have hchar : 1 ≤ (quoteChar c).length := by
        unfold quoteChar
        split
        · exact Nat.succ_pos _
        · split
          · exact Nat.succ_pos _
          · exact Nat.succ_pos _
      rw [List.flatMap_cons, List.length_append, List.length_cons]
      omega
  intro h
  have hchars := congrArg (fun t : String => t.toList.length) h
  have hs := hlength s.toList
  simp only [toList_quote, quoteChars, List.length_cons, List.length_append] at hchars
  omega

/-- A key is printed as it is if and only if it is an identifier. -/
theorem keyText_eq_self : keyText name = name ↔ isIdentifier name = true := by
  unfold keyText
  split
  · next h => exact iff_of_true rfl h
  · next h => exact iff_of_false (quote_ne name) h

namespace DeclarationFile

variable {names : DeclarationNames} {d : Descriptor} {f : DeclarationFile} {s : Session}

/-! ### The names of a file -/

/-- The keys of a record that are printed as they are. -/
def bareKeys : TypeExpr → List String
  | .record fields => (fields.map (·.1)).filter fun key => keyText key = key
  | _ => []

/-- The names that a file binds, the wrapper's included. -/
def boundNames (f : DeclarationFile) : List String :=
  f.declarations.map (·.name) ++ [f.names.app, f.names.root]

/-- The names that are printed as they are: bound names, the names that the module's types mention,
the names of the fixed parts, the segments of the module, and bare keys. -/
def unquoted (d : Descriptor) (f : DeclarationFile) : List String :=
  f.declarations.map (·.name) ++ d.types.flatMap (fun e => e.preorder.filterMap mentioned?) ++
    f.names.parts.map (·.2) ++ f.segments ++ d.types.flatMap (fun e => e.preorder.flatMap bareKeys)

/-- The names of a file are the ones that a reader finds. -/
structure RealNames (d : Descriptor) (f : DeclarationFile) : Prop where
  tokens : ∀ n ∈ unquoted d f, isToken n = true
  /-- No bound name is read as a predefined type or a reserved word. -/
  free : ∀ n ∈ f.boundNames, readToken n.toList ∉ reservedTypeNames
  /-- No two bound names are read as the same. -/
  bindings : (f.boundNames.map fun n => readToken n.toList).Nodup
  /-- No two keys of a record are read as the same. -/
  keys : ∀ e ∈ d.types, ∀ fields, .record fields ∈ e.preorder →
    ((fieldTexts fields).map fun text => readKey text.toList).Nodup

theorem names_of_assemble (h : assemble names d = .ok f) :
    f.names = names ∧ f.segments = d.modulePath ∧
      f.flagsType = if d.flags.isSome then names.flags else unitType := by
  unfold assemble at h
  dsimp only at h
  split at h
  · cases h
  split at h
  · cases h
  split at h
  · cases h
  · cases h
    exact ⟨rfl, rfl, rfl⟩

/-- A bound name can be bound as a type. -/
theorem isTypeName_of_mem_declarations (h : Assembled names d f s)
    (hname : name ∈ f.declarations.map (·.name)) : isTypeName name = true := by
  obtain ⟨b, hb, rfl⟩ := List.mem_map.1 hname
  rcases mem_declarations h hb with ⟨n, definition, hknows, rfl⟩ | rfl
  · exact (nameable_of_knows h hknows).typeName
  · exact isTypeName_jsonValueName

/-- Every name that a type of the module mentions is bound. -/
theorem mem_names_of_mem_types (h : Assembled names d f s) (hunion : d.outbound.isUnion = true)
    {e : TypeExpr} (he : e ∈ d.types) (hn : e.mentions name = true) :
    name ∈ f.declarations.map (·.name) := by
  rw [names_eq h, List.mem_append]
  obtain ⟨hknown, -⟩ := known_of_mem_types h hunion he
  rcases settles_of_mentions hknown hn with rfl | hbound
  · exact .inr (mem_jsonNames.2 ⟨rfl, e, he, hn⟩)
  · exact .inl ((mem_names_iff h).2 (Option.isSome_iff_exists.1 hbound))

theorem isIdentifier_of_isTypeName (h : isTypeName name = true) : isIdentifier name = true :=
  (Bool.and_eq_true _ _ ▸ h).1

/-- Every name that is printed as it is has been accepted as an identifier. -/
theorem isIdentifier_of_mem_unquoted (h : assemble names d = .ok f)
    (hn : name ∈ unquoted d f) : isIdentifier name = true := by
  obtain ⟨hsegments, hunion, -⟩ := assemble_eq_ok h
  obtain ⟨hnames, hpath, -⟩ := names_of_assemble h
  obtain ⟨s, hs⟩ := assemble_sound h
  simp only [unquoted, List.mem_append] at hn
  -- Each kind of name was judged elsewhere: aliases, mentions, wrapper, segments, keys.
  rcases hn with (((hn | hn) | hn) | hn) | hn
  · exact isIdentifier_of_isTypeName (isTypeName_of_mem_declarations hs hn)
  · obtain ⟨e, he, hmem⟩ := List.mem_flatMap.1 hn
    obtain ⟨p, hp, hmentioned⟩ := List.mem_filterMap.1 hmem
    have hbound := mem_names_of_mem_types hs hunion he (mentions_iff.2 ⟨p, hp, hmentioned⟩)
    exact isIdentifier_of_isTypeName (isTypeName_of_mem_declarations hs hbound)
  · obtain ⟨p, hp, rfl⟩ := List.mem_map.1 hn
    rw [hnames] at hp
    exact isIdentifier_of_isTypeName (names.usable_and_distinct.1 p hp).1
  · exact hsegments name (hpath ▸ hn)
  · obtain ⟨e, -, hmem⟩ := List.mem_flatMap.1 hn
    obtain ⟨p, -, hkey⟩ := List.mem_flatMap.1 hmem
    cases p with
    | record fields =>
      have hkey := (List.mem_filter.1 hkey).2
      exact keyText_eq_self.1 (of_decide_eq_true hkey)
    | _ => exact absurd hkey List.not_mem_nil

/-- The bound names, the wrapper's included, are type names and differ. -/
theorem boundNames_spec (h : assemble names d = .ok f) :
    (∀ n ∈ f.boundNames, isTypeName n = true ∧ n ∈ unquoted d f) ∧ f.boundNames.Nodup := by
  obtain ⟨hnames, -⟩ := names_of_assemble h
  obtain ⟨s, hs⟩ := assemble_sound h
  obtain ⟨husable, hdistinct⟩ := names.usable_and_distinct
  have hwrapper : ∀ n ∈ [names.app, names.root], n ∈ names.parts.map (·.2) := by
    simp [ChosenNames.parts]
  constructor
  · intro n hn
    rw [boundNames, hnames, List.mem_append] at hn
    simp only [unquoted, List.mem_append]
    rcases hn with hn | hn
    · exact ⟨isTypeName_of_mem_declarations hs hn, .inl (.inl (.inl (.inl hn)))⟩
    · -- The names of the wrapper were judged with the other chosen names.
      have hpart := hwrapper n hn
      refine ⟨?_, .inl (.inl (.inr (hnames ▸ hpart)))⟩
      obtain ⟨p, hp, rfl⟩ := List.mem_map.1 hpart
      exact (husable p hp).1
  · rw [boundNames, hnames, List.nodup_append]
    refine ⟨nodup_names hs, ?_, ?_⟩
    · simp only [ChosenNames.parts, List.map_cons, List.map_nil] at hdistinct
      exact (List.nodup_cons.1 (List.nodup_cons.1 hdistinct).2).2
    · rintro m hm n hn rfl
      exact not_mem_names hs hn hm

/-! ### What a reader finds -/

/-- Behind `type `, a reader finds in a declaration what he finds in its name. -/
theorem readToken_declaration (h : Assembled names d f s) {b : Declaration}
    (hb : b ∈ f.declarations) :
    readToken (b.text.toList.drop "type ".toList.length) = readToken b.name.toList := by
  obtain ⟨rest, htext⟩ := begins_of_mem h hb
  -- The name stands between `type ` and a blank, which is no part of a name.
  rw [htext, String.append_assoc, String.append_assoc, String.toList_append, List.drop_left,
    String.toList_append]
  refine readToken_append ?_
  rw [String.toList_append]
  rfl

/-- The keys of a record are read as they are, when no bare one ends a line. -/
theorem map_readKey {fields : List (String × TypeExpr)}
    (h : ∀ key ∈ bareKeys (.record fields), ¬ EndsLine key) :
    (fieldTexts fields).map (fun text => readKey text.toList) = fields.map (·.1) := by
  rw [fieldTexts_eq, List.map_map]
  refine List.map_congr_left fun field hfield => ?_
  show readKey (keyText field.1 ++ optionalMark field.2 ++ ": " ++ field.2.inline).toList = _
  simp only [String.toList_append, List.append_assoc]
  refine readKey_keyText (fun hbare => h _ ?_) (wordEnds_mark _ _)
  exact List.mem_filter.2 ⟨List.mem_map_of_mem hfield, decide_eq_true hbare⟩

/-- **The names of a file.** If a declaration file is generated, every name that it prints as it is
is a token, or a token and a line feed; a reader of a declaration finds in it what he finds in the
name. The names are the ones that are found (tokens, of which none that is bound is reserved, no two
that are bound are the same, and no two keys of a record are) if and only if none ends in a line
feed. -/
theorem generate_tokens {text : String} (h : generateDeclaration names d = .ok text) :
    ∃ f, assemble names d = .ok f ∧ f.render = text ∧
      (∀ n ∈ unquoted d f, ∃ token, isToken token = true ∧ (n = token ∨ n = token ++ "\n")) ∧
      (∀ b ∈ f.declarations,
        readToken (b.text.toList.drop "type ".toList.length) = readToken b.name.toList) ∧
      (RealNames d f ↔ ∀ n ∈ unquoted d f, ¬ EndsLine n) := by
  obtain ⟨f, hf, rfl⟩ := Outcome.map_eq_ok.1 h
  obtain ⟨s, hs⟩ := assemble_sound hf
  obtain ⟨hsegments, hunion, -⟩ := assemble_eq_ok hf
  obtain ⟨hbound, hnodup⟩ := boundNames_spec hf
  refine ⟨f, hf, rfl, fun n hn => isIdentifier_iff.1 (isIdentifier_of_mem_unquoted hf hn),
    fun b hb => readToken_declaration hs hb, fun hreal n hn => ?_, fun hends => ?_⟩
  · exact not_endsLine_of_isToken (hreal.tokens n hn)
  · -- Names that end no line are tokens, and tokens are read as they are; that what is read is
    -- free and differs was checked of the names.
    have htokens : ∀ n ∈ unquoted d f, isToken n = true := fun n hn =>
      (isToken_iff (isIdentifier_of_mem_unquoted hf hn)).2 (hends n hn)
    have hread : ∀ n ∈ f.boundNames, readToken n.toList = n := fun n hn =>
      readToken_of_isToken (htokens n (hbound n hn).2)
    refine ⟨htokens, fun n hn hreserved => ?_, ?_, fun e he fields hfields => ?_⟩
    · rw [hread n hn] at hreserved
      have htype := (hbound n hn).1
      rw [isTypeName_eq_false_of_mem hreserved] at htype
      cases htype
    · rw [List.map_congr_left hread, List.map_id']
      exact hnodup
    · have hbare : ∀ key ∈ bareKeys (.record fields), ¬ EndsLine key := by
        intro key hkey
        refine hends key (List.mem_append_right _ (List.mem_flatMap.2 ⟨e, he, ?_⟩))
        exact List.mem_flatMap.2 ⟨_, hfields, hkey⟩
      rw [map_readKey hbare]
      exact ((acceptable_of_assembled hs hunion hsegments).records e he fields hfields).2

theorem generate_tokens_nested :
    ∃ text, generateDeclaration .standard nested = .ok text ∧
      ∃ f, assemble .standard nested = .ok f ∧ RealNames nested f := by
  have htext : ∃ text, generateDeclaration .standard nested = .ok text := ⟨_, rfl⟩
  obtain ⟨text, htext⟩ := htext
  obtain ⟨f, hf, -, -, -, hreal⟩ := generate_tokens htext
  refine ⟨text, htext, f, hf, hreal.2 ?_⟩
  cases hf
  decide +kernel

/-- Flags with two keys that differ by a line feed. -/
def twinKeys : Descriptor where
  moduleName := "Main"
  outbound := .union []
  flags := some (.record [("a", .primitive .string), ("a\n", .primitive .number)])

/-- Flags that hold an alias with the name of a predefined type and a line feed, and two aliases
whose names differ by a line feed. -/
def twinAliases : Descriptor where
  moduleName := "Main"
  outbound := .union []
  flags := some (.record [("a", .alias "string\n" (.primitive .number)),
    ("b", .alias "B" (.primitive .null)), ("c", .alias "B\n" (.primitive .boolean))])

/-- A file is made for both modules. In the first, a key is no token, and two keys are read as the
same; in the second, a bound name is read as a predefined type, and two are read as the same. -/
theorem tokens_twins :
    (∃ f, assemble .standard twinKeys = .ok f ∧ (∃ n ∈ unquoted twinKeys f, isToken n = false) ∧
      ∃ e ∈ twinKeys.types, ∃ fields, TypeExpr.record fields ∈ e.preorder ∧
        ¬ ((fieldTexts fields).map fun text => readKey text.toList).Nodup) ∧
    ∃ f, assemble .standard twinAliases = .ok f ∧
      (∃ n ∈ f.boundNames, readToken n.toList ∈ reservedTypeNames) ∧
      ¬ (f.boundNames.map fun n => readToken n.toList).Nodup := by
  refine ⟨⟨_, rfl, ?_, ?_⟩, _, rfl, ?_, ?_⟩
  · decide +kernel
  · exact ⟨_, List.mem_cons_of_mem _ List.mem_cons_self, _, List.mem_cons_self, by decide⟩
  · decide
  · decide +kernel

end DeclarationFile

end BoundaryTypes
