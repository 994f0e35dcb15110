/-
  `Nesting` — brackets, literals and indents of a declaration file.

  All texts that a descriptor brings along enter a file as identifiers, which have no brackets
  and no quotes, or as literals. The rest is fixed, and closes what it opens. So every form of a
  type has a balanced text, every declaration and both parts of the wrapper, and at last the
  file (`balanced_render`). Nothing of a literal or a key can open or close what the file nests.

  The constant of a module opens a block for each segment of its name and closes the blocks in
  the reverse order, each at the indent at which it was opened (`Blocks`).
-/
import BoundaryTypes.Proofs.DeclarationFile.Tokens
import BoundaryTypes.Proofs.Text.Brackets
import BoundaryTypes.Proofs.TypeExpr.Mentions
import Mathlib.Data.List.Forall2

namespace BoundaryTypes

open Text

/-! ### Names -/

/-- A control character is no part of a name. -/
theorem isIdentifierPart_eq_false {c : Char} (h : c.toNat < 0x20) : isIdentifierPart c = false := by
  have hall : ∀ n : Fin 0x20, isIdentifierPart (Char.ofNat n.val) = false := by decide
  have hc := hall ⟨c.toNat, h⟩
  rwa [Char.ofNat_toNat] at hc

theorem balanced_of_isIdentifier {name : String} (h : isIdentifier name = true) :
    Balanced name := by
  refine Scan.run_of_forall_step fun c hc => ?_
  rcases Bool.or_eq_true _ _ ▸ (TypeExpr.isIdentifier_chars h).2 c hc with hpart | hfeed
  · refine Scan.step_outside (.inl (Nat.le_of_not_lt fun hlt => ?_)) fun hmark => ?_
    · rw [isIdentifierPart_eq_false hlt] at hpart
      cases hpart
    · simp only [List.mem_cons, List.not_mem_nil, or_false] at hmark
      rcases hmark with rfl | rfl | rfl | rfl | rfl | rfl | rfl <;> cases hpart
  · rw [eq_of_beq hfeed]
    exact Scan.step_outside (.inr rfl) (by decide)

/-! ### Types -/

namespace TypeExpr

variable {e : TypeExpr}

theorem balanced_keyText (name : String) : Balanced (keyText name) := by
  unfold keyText
  split
  · next h => exact balanced_of_isIdentifier h
  · exact balanced_quote name

theorem balanced_optionalMark (e : TypeExpr) : Balanced (optionalMark e) := by
  rcases optional_or_unmarked_eq e with ⟨i, rfl⟩ | ⟨-, h⟩
  · exact (by decide : Balanced "?")
  · rw [h]
    exact (by decide : Balanced "")

theorem balanced_fieldTexts {fields : List (String × TypeExpr)}
    (h : ∀ f ∈ fields, Balanced f.2.inline) : ∀ text ∈ fieldTexts fields, Balanced text := by
  rw [fieldTexts_eq, List.forall_mem_map]
  intro f hf
  have hhead : Balanced (keyText f.1 ++ optionalMark f.2 ++ ": ") :=
    ((balanced_keyText f.1).append (balanced_optionalMark f.2)).append (by decide)
  exact hhead.append (h f hf)

theorem balanced_variantTexts {variants : List TypeExpr} (h : ∀ v ∈ variants, Balanced v.inline) :
    ∀ text ∈ variantTexts variants, Balanced text := by
  rw [variantTexts_eq, List.forall_mem_map]
  exact h

/-- The text of a type is balanced if all names that the type mentions are identifiers. -/
theorem balanced_inline (h : ∀ n, e.mentions n = true → isIdentifier n = true) :
    Balanced e.inline := by
  have hchild {p c : TypeExpr} (hc : c ∈ p.children)
      (hp : ∀ n, p.mentions n = true → isIdentifier n = true) :
      ∀ n, c.mentions n = true → isIdentifier n = true :=
    fun n hn => hp n (mentions_iff_children.2 (.inr ⟨c, hc, hn⟩))
  have hname {p : TypeExpr} {n : String} (hn : p.mentioned? = some n)
      (hp : ∀ n, p.mentions n = true → isIdentifier n = true) : Balanced n :=
    balanced_of_isIdentifier (hp n (mentions_iff_children.2 (.inl hn)))
  -- One case for each form of a type: what is around the texts of its parts closes what it opens.
  induction e with
  | primitive kind =>
    show Balanced kind.word
    cases kind <;> decide
  | literal value => exact balanced_quote value
  | listOf e ih =>
    have he := ih (hchild List.mem_cons_self h)
    rw [inline_listOf]
    -- A union in a list stands in parentheses.
    split
    · exact he.between [')'] (by decide) (by decide)
    · exact he.append (by decide)
  | dictOf e ih =>
    have he := ih (hchild List.mem_cons_self h)
    rw [inline_dictOf]
    exact he.between ['\x7d'] (by decide) (by decide)
  | optional e ih => exact ih (hchild List.mem_cons_self h)
  | record fields ih =>
    cases fields with
    | nil => exact (by decide : Balanced "\x7b\x7d")
    | cons f fields =>
      have hfields := balanced_fieldTexts fun g hg =>
        (ih g hg).1 (hchild (mem_children_record hg) h)
      have hall := balanced_intercalate (by decide : Balanced "; ") hfields
      rw [inline_record_cons]
      exact hall.between ['\x7d'] (by decide) (by decide)
  | union variants ih =>
    cases variants with
    | nil => exact (by decide : Balanced "never")
    | cons v variants =>
      have hmember {w : TypeExpr} (hw : w ∈ v :: variants) :
          w ∈ (union (v :: variants)).children := hw
      have hvariants := balanced_variantTexts fun w hw => ih w hw (hchild (hmember hw) h)
      rw [inline_union_cons]
      exact balanced_intercalate (by decide) hvariants
  | «alias» name definition ih => exact hname rfl h
  | reference name => exact hname rfl h

theorem balanced_definitionText (h : ∀ n, e.mentions n = true → isIdentifier n = true) :
    Balanced e.definitionText := by
  have hchildren : ∀ c ∈ e.children, Balanced c.inline := fun c hc =>
    balanced_inline fun n hn => h n (mentions_iff_children.2 (.inr ⟨c, hc, hn⟩))
  unfold definitionText
  -- Variants and fields each have a line of their own; any other definition is inline.
  split
  · next v variants =>
    refine (by decide : Balanced " =").append (balanced_join ?_)
    rw [List.forall_mem_map]
    exact fun text htext =>
      (by decide : Balanced "\n  | ").append (balanced_variantTexts hchildren text htext)
  · next f fields =>
    have hfields := balanced_fieldTexts fun g hg => hchildren _ (mem_children_record hg)
    have hlines : Balanced (fieldLines (f :: fields)) := by
      refine balanced_join ?_
      rw [List.forall_mem_map]
      exact fun text htext => (hfields text htext).between [] (by decide) (by decide)
    exact hlines.between ['\x7d'] (by decide) (by decide)
  · exact (by decide : Balanced " = ").append (balanced_inline h)

theorem balanced_declarationText {name : String} (hname : isIdentifier name = true)
    (h : ∀ n, e.mentions n = true → isIdentifier n = true) :
    Balanced (e.declarationText name) := by
  have hhead : Balanced ("type " ++ name) :=
    (by decide : Balanced "type ").append (balanced_of_isIdentifier hname)
  exact (hhead.append (balanced_definitionText h)).append (by decide)

end TypeExpr

/-! ### The wrapper -/

namespace DeclarationFile

open Outcome TypeExpr

variable {names : DeclarationNames} {d : Descriptor} {f : DeclarationFile} {level : Nat}
  {body text : String} {segments opening closing : List String}

theorem balanced_interfaceText {app message : String} (happ : Balanced app)
    (hmessage : Balanced message) : Balanced (interfaceText app message) := by
  unfold interfaceText
  -- Three braces are opened, then two parentheses, and all of them are closed again in reverse.
  have hports : Takes [] ("export interface " ++ app ++ " \x7b\n  ports: \x7b\n    fromElm: \x7b\n")
      ['\x7d', '\x7d', '\x7d'] :=
    Takes.append ((by decide : Balanced "export interface ").append happ) (by decide)
  have hcallback := hports.append (by decide : Takes ['\x7d', '\x7d', '\x7d']
    "      subscribe(callback: (fromElm: " [')', ')', '\x7d', '\x7d', '\x7d'])
  have hreceive := (hcallback.append (hmessage.takes _)).append
    (by decide : Takes [')', ')', '\x7d', '\x7d', '\x7d'] ") => void): void;\n    \x7d;\n"
      ['\x7d', '\x7d'])
  exact hreceive.append (by decide)

theorem balanced_initText {app flags : String} (happ : Balanced app) (hflags : Balanced flags) :
    Balanced (initText app flags) := by
  have hoptions := hflags.between ['\x7d', ')']
    (by decide : Takes [] "init(options: \x7b node?: HTMLElement | null; flags: " ['\x7d', ')'])
    (by decide : Takes ['\x7d', ')'] " \x7d): " [])
  exact (hoptions.append happ).append (by decide)

theorem balanced_indent (level : Nat) : Balanced (indent level) := by
  refine balanced_join fun piece hpiece => ?_
  rw [(List.mem_replicate.1 hpiece).2]
  decide

/-- The function that starts a module does not begin with a blank. -/
theorem head?_initText (app flags : String) : (initText app flags).toList.head? ≠ some ' ' := by
  unfold initText
  rw [String.append_assoc, String.append_assoc, String.append_assoc, String.toList_append]
  exact fun h => absurd (Option.some.inj h) (by decide)

/-- A block is balanced if what it holds is. -/
theorem balanced_block {segment : String} (hsegment : Balanced segment) (hbody : Balanced body)
    (level : Nat) :
    Balanced (indent level ++ segment ++ ": \x7b\n" ++ body ++ indent level ++ "\x7d;\n") := by
  have hopens : Takes [] (indent level ++ segment ++ ": \x7b\n") ['\x7d'] :=
    Takes.append ((balanced_indent level).append hsegment) (by decide)
  have hinside := (hopens.append (hbody.takes _)).append ((balanced_indent level).takes _)
  exact hinside.append (by decide)

/-! ### Blocks -/

/-- How many blanks stand in front of a line. -/
def indentation (line : String) : Nat := (line.toList.takeWhile (· == ' ')).length

theorem toList_indent (level : Nat) : (indent level).toList = List.replicate (2 * level) ' ' := by
  induction level with
  | zero => rfl
  | succ level ih =>
    have hstep : (indent (level + 1)).toList = ' ' :: ' ' :: (indent level).toList := by
      rw [indent, List.replicate_succ, String.join_cons, String.toList_append]
      rfl
    rw [hstep, ih]
    rfl

/-- A line that does not go on with a blank is indented by its level. -/
theorem indentation_indent (level : Nat) (h : text.toList.head? ≠ some ' ') :
    indentation (indent level ++ text) = 2 * level := by
  -- The blanks of the indent are all there are: the text goes on with another character.
  have hblanks : ∀ c ∈ (indent level).toList, (c == ' ') = true := by
    rw [toList_indent]
    exact fun c hc => beq_iff_eq.2 (List.mem_replicate.1 hc).2
  have hrest : text.toList.takeWhile (· == ' ') = [] := by
    cases htext : text.toList with
    | nil => rfl
    | cons c rest =>
      rw [htext, List.head?_cons] at h
      exact List.takeWhile_cons_of_neg fun hc => h (congrArg some (eq_of_beq hc))
  rw [indentation, String.toList_append, List.takeWhile_append_of_pos hblanks, hrest,
    List.append_nil, toList_indent, List.length_replicate]

/-- A name does not begin with a blank. -/
theorem head?_ne_blank {name : String} (h : isIdentifier name = true) (after : String) :
    (name ++ after).toList.head? ≠ some ' ' := by
  obtain ⟨⟨c, rest, hname, hc⟩, -⟩ := isIdentifier_chars h
  rw [String.toList_append, hname]
  rintro ⟨⟩
  cases hc

/-- The module under its segments, each in a block inside that of the one before; the first one is
at a level. -/
def nestedText (level : Nat) (body : String) : List String → String
  | [] => indent level ++ body
  | segment :: rest =>
    indent level ++ segment ++ ": \x7b\n" ++ nestedText (level + 1) body rest
      ++ indent level ++ "\x7d;\n"

/-- A loop that only looks at the positions of a list. -/
theorem mapIdx_position {α β : Type} (l : List α) (g : Nat → β) :
    (l.mapIdx fun n _ => g n) = (List.range l.length).map g :=
  List.ext_getElem (by simp) (by simp)

theorem nestedText_eq (level : Nat) (body : String) (segments : List String) :
    nestedText level body segments =
      String.join (segments.mapIdx fun n segment => indent (level + n) ++ segment ++ ": \x7b\n") ++
        indent (level + segments.length) ++ body ++
        String.join (segments.mapIdx fun n _ =>
          indent (level + segments.length - 1 - n) ++ "\x7d;\n")
          := by
  induction segments generalizing level with
  | nil => simp [nestedText]
  | cons segment rest ih =>
    -- The block of the first segment is opened first and closed last.
    have hlast : level + (rest.length + 1) - 1 - rest.length = level := by omega
    have hclosing : (List.range rest.length).map (fun n =>
        indent (level + 1 + rest.length - 1 - n) ++ "\x7d;\n") =
        (List.range rest.length).map fun n =>
          indent (level + (rest.length + 1) - 1 - n) ++ "\x7d;\n" :=
      List.map_congr_left fun n _ => by rw [Nat.add_right_comm, Nat.add_assoc]
    rw [nestedText, ih, mapIdx_position, mapIdx_position, List.length_cons, List.range_succ,
      List.map_append, List.map_singleton, hlast, hclosing, List.mapIdx_cons]
    simp only [String.join_cons, String.join_append, String.join_nil, String.append_empty,
      String.append_assoc, Nat.add_zero, Nat.add_assoc, Nat.add_comm 1]

/-- **The two loops nest.** The lines that the first loop opens and the second one closes are the
blocks of the segments, one inside the other. -/
theorem segmentsText_eq_nestedText (body : String) (segments : List String) :
    segmentsText body segments = nestedText 1 body segments := by
  simp only [nestedText_eq, segmentsText, openingText, closingText, Nat.add_comm 1,
    Nat.add_sub_cancel]

/-- The lines of the blocks that segments open around a line, the first one at a level. -/
structure Blocks (level : Nat) (segments : List String) (body : String)
    (opening : List String) (inner : String) (closing : List String) : Prop where
  /-- The name of each segment begins a line that opens a block. -/
  opens : List.Forall₂ (fun segment line => ∃ n, line = indent n ++ segment ++ ": \x7b\n")
    segments opening
  /-- The last lines close a block each. -/
  closes : ∀ line ∈ closing, ∃ n, line = indent n ++ "\x7d;\n"
  steps : opening.map indentation = (List.range' level segments.length).map (2 * ·)
  /-- A line that closes a block is indented like the one that opens it. -/
  mirrors : closing.map indentation = (opening.map indentation).reverse
  holds : inner = indent (level + segments.length) ++ body
  /-- What stands inside a number of blocks is balanced, so it does not close them. -/
  inside : ∀ k, Balanced (String.join (opening.drop k) ++ inner ++
    String.join (closing.take (closing.length - k)))

theorem join_around (line inner last : String) :
    String.join (line :: opening) ++ inner ++ String.join (closing ++ [indent level ++ last]) =
      line ++ (String.join opening ++ inner ++ String.join closing) ++ indent level ++ last := by
  simp only [String.join_cons, String.join_append, String.join_nil, String.append_empty,
    String.append_assoc]

/-- One more segment, whose block is around the others. -/
theorem Blocks.cons {segment inner : String} (hsegment : isIdentifier segment = true)
    (h : Blocks (level + 1) segments body opening inner closing) :
    Blocks level (segment :: segments) body
      ((indent level ++ segment ++ ": \x7b\n") :: opening) inner
      (closing ++ [indent level ++ "\x7d;\n"]) := by
  have hopen : indentation (indent level ++ segment ++ ": \x7b\n") = 2 * level := by
    rw [String.append_assoc]
    exact indentation_indent level (head?_ne_blank hsegment _)
  have hclose : indentation (indent level ++ "\x7d;\n") = 2 * level :=
    indentation_indent level (by decide)
  refine ⟨.cons ⟨level, rfl⟩ h.opens, ?_, ?_, ?_, ?_, fun k => ?_⟩
  · rw [List.forall_mem_append, List.forall_mem_singleton]
    exact ⟨h.closes, level, rfl⟩
  · rw [List.map_cons, hopen, h.steps, List.length_cons, List.range'_succ, List.map_cons]
  · rw [List.map_append, h.mirrors, List.map_singleton, hclose, List.map_cons, List.reverse_cons,
      hopen]
  · rw [h.holds, List.length_cons, Nat.add_right_comm, Nat.add_assoc]
  · cases k with
    | zero =>
      have hblock := balanced_block (balanced_of_isIdentifier hsegment) (h.inside 0) level
      rw [List.drop_zero, Nat.sub_zero, List.take_length] at hblock
      rw [List.drop_zero, Nat.sub_zero, List.take_length, join_around]
      exact hblock
    | succ k =>
      -- The last line belongs to the new block, so it is not among those inside.
      have hlength : (closing ++ [indent level ++ "\x7d;\n"]).length - (k + 1) =
          closing.length - k := by
        rw [List.length_append, List.length_singleton, Nat.add_sub_add_right]
      rw [List.drop_succ_cons, hlength, List.take_append_of_le_length (Nat.sub_le _ _)]
      exact h.inside k

theorem exists_blocks (hbody : Balanced body)
    (h : ∀ segment ∈ segments, isIdentifier segment = true) (level : Nat) :
    ∃ opening inner closing, Blocks level segments body opening inner closing ∧
      nestedText level body segments = String.join opening ++ inner ++ String.join closing := by
  -- By induction on the segments; each of them puts one more block around the rest.
  induction segments generalizing level with
  | nil =>
    have htext : String.join [] ++ (indent level ++ body) ++ String.join [] =
        indent level ++ body := by
      rw [String.join_nil, String.empty_append, String.append_empty]
    refine ⟨[], indent level ++ body, [], ⟨.nil, nofun, rfl, rfl, rfl, fun k => ?_⟩, htext.symm⟩
    rw [List.drop_nil, List.take_nil, htext]
    exact (balanced_indent level).append hbody
  | cons segment rest ih =>
    rw [List.forall_mem_cons] at h
    obtain ⟨opening, inner, closing, hblocks, htext⟩ := ih h.2 (level + 1)
    refine ⟨_, inner, _, hblocks.cons h.1, ?_⟩
    rw [nestedText, htext, join_around]

theorem balanced_segmentsText (hbody : Balanced body)
    (h : ∀ segment ∈ segments, isIdentifier segment = true) :
    Balanced (segmentsText body segments) := by
  obtain ⟨opening, inner, closing, hblocks, htext⟩ := exists_blocks hbody h 1
  have hall := hblocks.inside 0
  rwa [List.drop_zero, Nat.sub_zero, List.take_length, ← htext,
    ← segmentsText_eq_nestedText] at hall

/-- The line inside all blocks is one level deeper than the one that opens the last of them. -/
theorem Blocks.deeper {inner : String} (h : Blocks level segments body opening inner closing)
    (hne : segments ≠ []) (hbody : body.toList.head? ≠ some ' ') :
    ∃ last, opening.getLast? = some last ∧ indentation inner = indentation last + 2 := by
  -- The last segment opens its block one level above the line inside.
  have hlast : (opening.map indentation).getLast? = some (2 * (level + segments.length - 1)) := by
    rw [h.steps, List.getLast?_map, List.getLast?_range',
      if_neg (mt List.length_eq_zero_iff.1 hne)]
    rfl
  rw [List.getLast?_map, Option.map_eq_some_iff] at hlast
  obtain ⟨last, hlast, hindent⟩ := hlast
  refine ⟨last, hlast, ?_⟩
  have hlength : 0 < segments.length := List.length_pos_iff.2 hne
  rw [hindent, h.holds, indentation_indent _ hbody]
  omega

/-! ### The constant -/

theorem balanced_constantText {root : String} (hroot : Balanced root) (hbody : Balanced body)
    (h : ∀ segment ∈ segments, isIdentifier segment = true) :
    Balanced (constantText root body segments) := by
  have hopens : Takes [] ("declare const " ++ root ++ ": \x7b\n") ['\x7d'] :=
    Takes.append ((by decide : Balanced "declare const ").append hroot) (by decide)
  have hblocks := hopens.append ((balanced_segmentsText hbody h).takes _)
  have hexport := hblocks.append (by decide : Takes ['\x7d'] "\x7d;\nexport \x7b " ['\x7d'])
  exact (hexport.append (hroot.takes _)).append (by decide)

/-! ### Files -/

/-- The names that a file is made with and the type of its flags are balanced. -/
theorem balanced_parts (h : assemble names d = .ok f) :
    (∀ n ∈ f.names.parts.map (·.2), Balanced n) ∧ Balanced f.flagsType := by
  obtain ⟨hnames, -, htype⟩ := names_of_assemble h
  have hpart : ∀ n ∈ names.parts.map (·.2), Balanced n := by
    intro n hn
    obtain ⟨p, hp, rfl⟩ := List.mem_map.1 hn
    exact balanced_of_isIdentifier (isIdentifier_of_isTypeName (names.usable_and_distinct.1 p hp).1)
  refine ⟨hnames ▸ hpart, ?_⟩
  rw [htype]
  split
  · exact hpart _ (by simp [ChosenNames.parts])
  · decide

theorem isIdentifier_of_mem_segments (h : assemble names d = .ok f) :
    ∀ segment ∈ f.segments, isIdentifier segment = true := by
  rw [(names_of_assemble h).2.1]
  exact (assemble_eq_ok h).1

theorem balanced_declarationsText (h : assemble names d = .ok f) :
    Balanced (declarationsText f.declarations) := by
  obtain ⟨s, hs⟩ := assemble_sound h
  have hbound (n : String) (hn : n ∈ f.declarations.map (·.name)) : isIdentifier n = true :=
    isIdentifier_of_isTypeName (isTypeName_of_mem_declarations hs hn)
  refine balanced_join ?_
  rw [List.forall_mem_map]
  intro b hb
  refine Balanced.append ?_ (by decide)
  rcases mem_declarations hs hb with ⟨n, definition, hknows, rfl⟩ | rfl
  · -- What a bound type mentions is bound as well, so all its names are identifiers.
    exact balanced_declarationText (hbound n (List.mem_map_of_mem hb))
      fun m hm => hbound m (mem_names_of_mentions hs hknows hm)
  · decide

theorem balanced_render (h : assemble names d = .ok f) : Balanced f.render := by
  obtain ⟨hnames, hflags⟩ := balanced_parts h
  have happ : Balanced f.names.app := hnames _ (by simp [ChosenNames.parts])
  have hmessage : Balanced f.names.message := hnames _ (by simp [ChosenNames.parts])
  have hroot : Balanced f.names.root := hnames _ (by simp [ChosenNames.parts])
  have hinterface := balanced_interfaceText happ hmessage
  have hconstant := balanced_constantText hroot (balanced_initText happ hflags)
    (isIdentifier_of_mem_segments h)
  have hhead := (balanced_declarationsText h).append hinterface
  exact (hhead.append (by decide)).append hconstant

/-- A declaration file is legible: its text by the standard template has no control character but
line feeds, whatever the types, the names and the literals of its module are. -/
theorem legible_render (h : assemble names d = .ok f) : Legible f.render :=
  (balanced_render h).legible

/-- **Balanced files.** In a file that is generated, the brackets outside the literals nest and are
all closed, and each literal is closed on its line. The constant has a line for each segment of the
module's name and as many lines that close the blocks, in reverse at the same indents; the function
that starts the module is one level deeper than the last segment. -/
theorem generate_balanced {text : String} (h : generateDeclaration names d = .ok text) :
    Balanced text ∧ ∃ f opening inner closing last, assemble names d = .ok f ∧
      text = declarationsText f.declarations ++ interfaceText names.app names.message ++ "\n" ++
        "declare const " ++ names.root ++ ": \x7b\n" ++ String.join opening ++ inner ++
        String.join closing ++ "\x7d;\nexport \x7b " ++ names.root ++ " \x7d;\n" ∧
      Blocks 1 d.modulePath (initText names.app f.flagsType) opening inner closing ∧
      opening.getLast? = some last ∧ indentation inner = indentation last + 2 := by
  obtain ⟨f, hf, rfl⟩ := map_eq_ok.1 h
  obtain ⟨hnames, hpath, -⟩ := names_of_assemble hf
  obtain ⟨hparts, hflags⟩ := balanced_parts hf
  have hinit : Balanced (initText names.app f.flagsType) :=
    balanced_initText (hparts _ (by simp [ChosenNames.parts, hnames])) hflags
  -- The blocks of the constant begin at the first level, inside its own braces.
  obtain ⟨opening, inner, closing, hblocks, htext⟩ :=
    exists_blocks hinit (assemble_eq_ok hf).1 1
  obtain ⟨last, hlast, hindent⟩ := hblocks.deeper (splitOn_ne_nil _ _)
    (head?_initText names.app f.flagsType)
  refine ⟨balanced_render hf, f, opening, inner, closing, last, hf, ?_, hblocks, hlast, hindent⟩
  unfold render constantText
  rw [hnames, hpath, segmentsText_eq_nestedText, htext]
  simp only [String.append_assoc]

/-- A module whose tag, key and literal hold brackets, quotes and line feeds. -/
def bracketed : Descriptor where
  moduleName := "Main.Page.Tree"
  outbound := .taggedUnion [("]\n\"", [("\x7b key", .listOf (.enumeration ["\\", ")\n"]))])]
  flags := some (.alias "Flags" (.record [("(", .listOf (.reference "Flags"))]))

theorem generate_balanced_bracketed :
    ∃ text opening inner closing, generateDeclaration .standard bracketed = .ok text ∧
      Balanced text ∧
      Blocks 1 ["Main", "Page", "Tree"] (initText "ElmApp" "Flags") opening inner closing ∧
      opening.map indentation = [2, 4, 6] ∧ closing.map indentation = [6, 4, 2] := by
  have htext : ∃ text, generateDeclaration .standard bracketed = .ok text := ⟨_, rfl⟩
  obtain ⟨text, htext⟩ := htext
  obtain ⟨hbalanced, f, opening, inner, closing, -, hf, -, hblocks, -⟩ := generate_balanced htext
  cases hf
  have hsteps : opening.map indentation = [2, 4, 6] := hblocks.steps
  refine ⟨text, opening, inner, closing, htext, hbalanced, hblocks, hsteps, ?_⟩
  rw [hblocks.mirrors, hsteps]
  rfl

end DeclarationFile

end BoundaryTypes
