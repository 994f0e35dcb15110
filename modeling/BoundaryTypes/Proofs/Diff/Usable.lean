/-
  `Usable` — when a difference turns the one text into the other.

  Only the last line of a text may lack its end. In a difference such a line is the last as well,
  or the last but for the lines that are added in its place, so its lines stay apart unless it ends
  by replacing a line without an end (`ReplacesOpenEnd`). Then the first added line is joined with
  the removed one, the last hunk holds fewer lines than its head announces, and the difference
  cannot be read. In every other case it makes the one text of the other (`patched_render`).
-/
import BoundaryTypes.Proofs.Diff.Items
import BoundaryTypes.Proofs.Text.Lines

namespace BoundaryTypes.Diff

variable {left right : Array String} {i j k l m n a b : Nat} {e : Edit} {es hunk : List Edit}
  {ls : List (List Char)} {found : List (List Edit)}

/-! ### Lines with and without an end -/

theorem separate_chars {all : Array String} (h : Text.Separate (charLines all)) (s : Span) :
    Text.Separate (s.chars all) := by
  rw [← List.take_append_drop s.start (charLines all)] at h
  have hfrom := h.right
  rw [← List.take_append_drop s.size ((charLines all).drop s.start)] at hfrom
  rw [chars_eq]
  exact hfrom.left

/-- Before the last line every line has its end. -/
theorem ended_chars {all : Array String} (h : Text.Separate (charLines all)) (hi : i ≤ k)
    (hk : k < all.size) : ∀ line ∈ Span.chars all ⟨i, k⟩, Text.Ended line := by
  rw [← List.take_append_drop i (charLines all), drop_charLines all hi] at h
  refine h.right.ended fun hnil => ?_
  have hlength := congrArg List.length hnil
  rw [List.length_drop, length_charLines, List.length_nil] at hlength
  omega

theorem open_toString (n : Nat) : Text.Open (toString n).toList := by
  intro c hc
  have hdigit := Text.isDigit_of_mem_toString hc
  refine Bool.eq_false_iff.2 fun hend => ?_
  simp only [Text.endsLine, Bool.or_eq_true, beq_iff_eq] at hend
  obtain ((((((((rfl | rfl) | rfl) | rfl) | rfl) | rfl) | rfl) | rfl) | rfl) | rfl := hend
  all_goals cases hdigit

theorem open_rangeText (s : Span) : Text.Open (rangeText s).toList := by
  rw [rangeText]
  split
  · exact open_toString _
  · intro c hc
    simp only [String.toList_append, List.mem_append] at hc
    obtain (hc | hc) | hc := hc
    · exact open_toString _ c hc
    · obtain rfl : c = ',' := List.mem_singleton.1 hc
      rfl
    · exact open_toString _ c hc

/-- The head of a hunk is one line, ended by a line feed. -/
theorem text_head (s t : Span) :
    ∃ body, Text.Open body ∧ (Item.head s t).text = body ++ ['\n'] := by
  have hclose : " @@\n".toList = " @@".toList ++ ['\n'] := rfl
  rw [Item.text, hclose, ← List.append_assoc]
  refine ⟨_, fun c hc => ?_, rfl⟩
  simp only [List.mem_append] at hc
  obtain (((hc | hc) | hc) | hc) | hc := hc
  · exact (by decide : Text.Open "@@ -".toList) c hc
  · exact open_rangeText s c hc
  · exact (by decide : Text.Open " +".toList) c hc
  · exact open_rangeText t c hc
  · exact (by decide : Text.Open " @@".toList) c hc

theorem ended_head (s t : Span) : Text.Ended (Item.head s t).text := by
  obtain ⟨body, hbody, htext⟩ := text_head s t
  exact htext ▸ hbody.ended rfl

theorem ended_text {item : List Char → Item} (hitem : item = .keep ∨ item = .remove ∨ item = .add)
    (hls : ∀ line ∈ ls, Text.Ended line) :
    ∀ line ∈ (ls.map item).map Item.text, Text.Ended line := by
  intro line hline
  obtain ⟨_, hitems, rfl⟩ := List.mem_map.1 hline
  obtain ⟨line, hmem, rfl⟩ := List.mem_map.1 hitems
  obtain rfl | rfl | rfl := hitem
  all_goals exact .cons rfl (hls line hmem)

section Ends

variable {fs : List Edit}

/-- Edits that others follow, or that end before the last lines, begin before the end of a text:
of both texts when they begin with equal lines. -/
theorem Covers.lt_size (h : Covers left right i j (es ++ fs) k l) (hk : k ≤ left.size)
    (hl : l ≤ right.size) (hfs : fs ≠ [] ∨ k < left.size ∧ l < right.size) :
    (i < left.size ∨ j < right.size) ∧
      ((∀ e ∈ (es ++ fs).head?, e.same) → i < left.size ∧ j < right.size) := by
  cases hall : es ++ fs with
  | nil =>
    rw [hall] at h
    cases h
    have hlt := hfs.resolve_left fun h => h (List.append_eq_nil_iff.1 hall).2
    exact ⟨.inl hlt.1, fun _ => hlt⟩
  | cons e rest =>
    rw [hall] at h
    refine ⟨h.lt.imp (by omega) (by omega), fun hsame => ?_⟩
    have := h.lt_of_same (hsame e rfl)
    exact ⟨by omega, by omega⟩

variable (hleft : Text.Separate (charLines left)) (hright : Text.Separate (charLines right))

include hleft hright

/-- Before other edits and before the last lines every line has its end. -/
theorem Covers.ended (h : Covers left right i j (es ++ fs) k l) (hk : k ≤ left.size)
    (hl : l ≤ right.size) (hfs : fs ≠ [] ∨ k < left.size ∧ l < right.size) :
    ∀ line ∈ (es.flatMap (Edit.items left right)).map Item.text, Text.Ended line := by
  -- By induction on the edits; what follows them makes sure that the last line is not among theirs.
  induction es generalizing i j with
  | nil => exact fun _ h => absurd h List.not_mem_nil
  | cons e es ih =>
    intro line hline
    rw [List.flatMap_cons, List.map_append] at hline
    cases h with
    | @same _ _ _ _ n _ hn hequal hrest =>
      rcases List.mem_append.1 hline with hline | hline
      · refine ended_text (.inl rfl) ?_ line hline
        -- Equal lines are in both texts, so an end on either side will do.
        rcases (hrest.lt_size hk hl hfs).1 with hlt | hlt
        · exact ended_chars hleft (Nat.le_add_right i n) hlt
        · dsimp only
          rw [hequal.chars]
          exact ended_chars hright (Nat.le_add_right j n) hlt
      · exact ih hrest line hline
    | change hi hj hsome hnext hrest =>
      rcases List.mem_append.1 hline with hline | hline
      · obtain ⟨hltLeft, hltRight⟩ := (hrest.lt_size hk hl hfs).2 hnext
        simp only [Edit.items, Bool.false_eq_true, if_false, List.map_append] at hline
        rcases List.mem_append.1 hline with hline | hline
        · exact ended_text (.inr (.inl rfl)) (ended_chars hleft hi hltLeft) line hline
        · exact ended_text (.inr (.inr rfl)) (ended_chars hright hj hltRight) line hline
      · exact ih hrest line hline

omit hleft hright in
theorem Grouped.lt (h : Grouped left right 1 i j found) (hfound : found ≠ []) :
    i < left.size ∧ j < right.size := by
  cases h with
  | nil => exact absurd rfl hfound
  | cons hm _ hhunk hrest =>
    have := hhunk.le
    have := hrest.le
    exact ⟨by omega, by omega⟩

/-- The last edit of the last hunk; all lines before it have their ends. -/
theorem Grouped.last (h : Grouped left right m i j found) (hne : ∀ hunk ∈ found, hunk ≠ [])
    (hfound : found ≠ []) :
    ∃ before e i' j' k l, (found.flatMap (hunkItems left right)).map Item.text =
        before ++ (e.items left right).map Item.text ∧
      (∀ line ∈ before, Text.Ended line) ∧
      (found.getLast hfound).getLast? = some e ∧
      Covers left right i' j' [e] k l ∧ k ≤ left.size ∧ l ≤ right.size := by
  induction h with
  | nil => exact absurd rfl hfound
  | @cons i j k l m n hunk rest hm hgap hhunk hrest ih =>
    have hhunkne := hne hunk List.mem_cons_self
    by_cases hrestne : rest = []
    · subst hrestne
      have hsplit := List.dropLast_concat_getLast hhunkne
      rw [← hsplit] at hhunk
      obtain ⟨i', j', _, hend⟩ := hhunk.split
      refine ⟨(Item.head (hunkSpan Edit.left hunk) (hunkSpan Edit.right hunk)).text ::
          (hunk.dropLast.flatMap (Edit.items left right)).map Item.text,
        hunk.getLast hhunkne, i', j', k, l, ?_, ?_, List.getLast?_eq_some_getLast _, hend,
        hrest.le⟩
      · have hitems := congrArg (List.flatMap (Edit.items left right)) hsplit
        rw [List.flatMap_append, List.flatMap_singleton] at hitems
        rw [List.flatMap_singleton, hunkItems, ← hitems, List.map_cons, List.map_append,
          List.cons_append]
      · intro line hline
        rcases List.mem_cons.1 hline with rfl | hline
        · exact ended_head _ _
        · exact hhunk.ended hleft hright hrest.le.1 hrest.le.2 (.inl (List.cons_ne_nil _ _)) line
            hline
    · obtain ⟨before, e, i', j', k', l', htext, hended, hlast, hcovers⟩ :=
        ih (fun h hh => hne h (List.mem_cons_of_mem _ hh)) hrestne
      -- Lines of a hunk that others follow all have their ends, those of its last edit as well.
      refine ⟨(hunkItems left right hunk).map Item.text ++ before, e, i', j', k', l', ?_, ?_, ?_,
        hcovers⟩
      · rw [List.flatMap_cons, List.map_append, htext, List.append_assoc]
      · intro line hline
        rw [hunkItems, List.map_cons, List.cons_append] at hline
        rcases List.mem_cons.1 hline with rfl | hline
        · exact ended_head _ _
        rcases List.mem_append.1 hline with hline | hline
        · rw [← List.append_nil hunk] at hhunk
          exact hhunk.ended hleft hright hrest.le.1 hrest.le.2 (.inr (hrest.lt hrestne)) line hline
        · exact hended line hline
      · rw [List.getLast_cons hrestne]
        exact hlast

end Ends

/-! ### The lines of a difference -/

variable {current updated name : String}

/-- The sequence of the lines of a text. -/
def linesOf (text : String) : Array String := (Text.lines text).toArray

theorem charLines_linesOf (text : String) :
    charLines (linesOf text) = Text.splitLines text.toList := by
  simp [charLines, linesOf, Text.lines, Function.comp_def]

theorem separate_linesOf (text : String) : Text.Separate (charLines (linesOf text)) := by
  rw [charLines_linesOf]
  exact Text.separate_splitLines _

/-- The hunks of two texts. -/
def textHunks (current updated : String) : List (List Edit) :=
  hunks (linesOf current) (linesOf updated)

/-- What the lines after the header of a difference say. -/
def textItems (current updated : String) : List Item :=
  (textHunks current updated).flatMap (hunkItems (linesOf current) (linesOf updated))

theorem ne_nil_of_mem_textHunks (h : hunk ∈ textHunks current updated) : hunk ≠ [] := by
  rintro rfl
  cases (List.mem_filter.1 h).2

/-- Different texts differ in their lines. -/
theorem textHunks_ne_nil (h : current ≠ updated) : textHunks current updated ≠ [] := by
  intro hnil
  have hgrouped := grouped_hunks (linesOf current) (linesOf updated)
  rw [show hunks (linesOf current) (linesOf updated) = [] from hnil] at hgrouped
  have happly := hgrouped.apply fun _ h => absurd h List.not_mem_nil
  rw [List.flatMap_nil, applyItems, List.drop_zero, List.drop_zero, charLines_linesOf,
    charLines_linesOf, Option.some.injEq] at happly
  have htexts := congrArg List.flatten happly
  rw [Text.flatten_splitLines, Text.flatten_splitLines] at htexts
  exact h (String.toList_inj.1 htexts)

/-- The header of a difference. -/
def headerLines (name : String) : List (List Char) :=
  ["--- ".toList ++ (name.toList ++ " (current)\n".toList),
    "+++ ".toList ++ (name.toList ++ " (generated)\n".toList)]

theorem toList_render (h : current ≠ updated) (name : String) :
    (render current updated name).toList =
      (headerLines name ++ (textItems current updated).map Item.text).flatten := by
  have hne : hunks (linesOf current) (linesOf updated) ≠ [] := textHunks_ne_nil h
  have hrender : render current updated name =
      "--- " ++ name ++ " (current)\n+++ " ++ name ++ " (generated)\n" ++ String.join
        ((textHunks current updated).flatMap (hunkLines (linesOf current) (linesOf updated))) := by
    rw [render]
    split
    · next hnil => exact absurd hnil hne
    · rfl
  have hlines : ((textHunks current updated).flatMap
      (hunkLines (linesOf current) (linesOf updated))).map String.toList =
        (textItems current updated).map Item.text := by
    rw [textItems, List.map_flatMap, List.map_flatMap]
    simp only [hunkLines_eq]
  rw [hrender, String.toList_append, String.toList_join, List.flatten_append, ← hlines,
    List.flatMap_def]
  congr 1
  simp [headerLines]

theorem headerLines_fed (hname : Text.Open name.toList) :
    ∀ line ∈ headerLines name, ∃ body, Text.Open body ∧ line = body ++ ['\n'] := by
  have hline (before after : List Char) (hbefore : Text.Open before) (hafter : Text.Open after) :
      ∃ body, Text.Open body ∧ before ++ (name.toList ++ (after ++ ['\n'])) = body ++ ['\n'] := by
    refine ⟨before ++ name.toList ++ after, fun c hc => ?_, by simp⟩
    simp only [List.mem_append] at hc
    obtain (hc | hc) | hc := hc
    · exact hbefore c hc
    · exact hname c hc
    · exact hafter c hc
  intro line hmem
  simp only [headerLines, List.mem_cons, List.not_mem_nil, or_false] at hmem
  obtain rfl | rfl := hmem
  · exact hline "--- ".toList " (current)".toList (by decide) (by decide)
  · exact hline "+++ ".toList " (generated)".toList (by decide) (by decide)

theorem ended_headerLines (hname : Text.Open name.toList) :
    ∀ line ∈ headerLines name, Text.Ended line := by
  intro line hline
  obtain ⟨body, hbody, rfl⟩ := headerLines_fed hname line hline
  exact hbody.ended rfl

/-- No line of a difference begins with a line feed. -/
theorem head?_of_mem_text {its : List Item} {line : List Char} (h : line ∈ its.map Item.text) :
    line.head? ≠ some '\n' := by
  obtain ⟨item, _, rfl⟩ := List.mem_map.1 h
  -- Each line begins with the mark of its item.
  cases item <;> exact fun h => absurd (Option.some.inj h) (by decide)

theorem readPatch_render (h : current ≠ updated) (hname : Text.Open name.toList)
    {ls : List (List Char)} (hls : Text.Separate ls) (hfeed : ∀ l ∈ ls, l.head? ≠ some '\n')
    (hflatten : ls.flatten = ((textItems current updated).map Item.text).flatten) :
    readPatch (Text.splitLines (render current updated name).toList) = readItems 0 0 ls := by
  -- The reader cuts at line ends, so it finds the lines again that were put together.
  have hcut : Text.splitLines (headerLines name ++ ls).flatten = headerLines name ++ ls := by
    refine Text.splitLines_flatten (.append (ended_headerLines hname) hls) fun l hl => ?_
    rcases List.mem_append.1 hl with hl | hl
    · simp only [headerLines, List.mem_cons, List.not_mem_nil, or_false] at hl
      obtain rfl | rfl := hl
      all_goals exact fun h => absurd (Option.some.inj h) (by decide)
    · exact hfeed l hl
  rw [toList_render h, List.flatten_append, ← hflatten, ← List.flatten_append, hcut, headerLines,
    List.cons_append, List.cons_append, List.nil_append, readPatch, if_pos]
  exact ⟨List.isPrefixOf_iff_prefix.2 (List.prefix_append _ _),
    List.isPrefixOf_iff_prefix.2 (List.prefix_append _ _)⟩

/-! ### When a difference can be used -/

/-- The last line of the current text has no end, and the difference ends by putting other lines in
its place. -/
def ReplacesOpenEnd (current updated : String) : Prop :=
  Text.EndsOpen current.toList ∧
    ∃ e ∈ (textHunks current updated).getLast?.bind List.getLast?, e.same = false ∧
      e.left.stop = (linesOf current).size ∧ e.left.start < e.left.stop ∧
      e.right.start < e.right.stop

instance : Decidable (ReplacesOpenEnd current updated) :=
  decidable_of_iff (Text.EndsOpen current.toList ∧
    (((textHunks current updated).getLast?.bind List.getLast?).any fun e => !e.same &&
      e.left.stop == (linesOf current).size && decide (e.left.start < e.left.stop) &&
      decide (e.right.start < e.right.stop)) = true) (by
    cases h : (textHunks current updated).getLast?.bind List.getLast? <;>
      simp [ReplacesOpenEnd, h, and_assoc])

theorem patched_of_separate (h : current ≠ updated) (hname : Text.Open name.toList)
    (hls : Text.Separate ((textItems current updated).map Item.text)) :
    patched Text.splitLines current (render current updated name) = some updated := by
  have hgrouped := grouped_hunks (linesOf current) (linesOf updated)
  have hne : ∀ hunk ∈ textHunks current updated, hunk ≠ [] := fun _ => ne_nil_of_mem_textHunks
  have hread : readPatch (Text.splitLines (render current updated name).toList) =
      some (textItems current updated) :=
    (readPatch_render h hname hls (fun _ => head?_of_mem_text) rfl).trans (hgrouped.read hne)
  have happly : applyItems (Text.splitLines current.toList) 0 0 (textItems current updated) =
      some (Text.splitLines updated.toList) := by
    rw [← charLines_linesOf, ← charLines_linesOf]
    exact hgrouped.apply hne
  rw [patched, hread, Option.bind_eq_bind, Option.bind_some, happly, Option.bind_eq_bind,
    Option.bind_some, Text.flatten_splitLines, String.ofList_toList]
  rfl

theorem chars_empty (all : Array String) (i : Nat) : Span.chars all ⟨i, i⟩ = [] := by
  rw [chars_eq, Span.size, Nat.sub_self, List.take_zero]

theorem mem_of_mem_chars {all : Array String} {s : Span} {line : List Char}
    (h : line ∈ s.chars all) : line ∈ charLines all := by
  rw [chars_eq] at h
  exact List.mem_of_mem_drop (List.mem_of_mem_take h)

/-- The lines of the current text, all with their ends unless the text ends open. -/
theorem ended_linesOf (h : ¬ Text.EndsOpen current.toList) :
    ∀ line ∈ charLines (linesOf current), Text.Ended line := by
  rw [charLines_linesOf]
  exact ((Text.splitLines_end current.toList).resolve_right fun h' => h h'.1).2

theorem Covers.separate (hleft : Text.Separate (charLines left))
    (hright : Text.Separate (charLines right)) (h : Covers left right i j [e] k l)
    (hk : k ≤ left.size)
    (hclosed : e.same = false → i < k → j < l → k = left.size →
      ∀ line ∈ charLines left, Text.Ended line) :
    Text.Separate ((e.items left right).map Item.text) := by
  cases h with
  | @same _ _ _ _ n _ _ _ _ =>
    rw [Edit.items, if_pos rfl, List.map_map]
    exact (separate_chars hleft _).map_cons rfl
  | @change _ _ i' j' _ _ _ hi hj _ _ hrest =>
    cases hrest
    have hremoved : Text.Separate (((Span.chars left ⟨i, k⟩).map Item.remove).map Item.text) := by
      rw [List.map_map]
      exact (separate_chars hleft _).map_cons rfl
    have hadded : Text.Separate (((Span.chars right ⟨j, l⟩).map Item.add).map Item.text) := by
      rw [List.map_map]
      exact (separate_chars hright _).map_cons rfl
    rw [Edit.items, if_neg Bool.false_ne_true, List.map_append]
    -- Added lines may end open, and removed ones only where nothing is added.
    rcases Nat.eq_or_lt_of_le hj with rfl | hj
    · rw [chars_empty, List.map_nil, List.map_nil, List.append_nil]
      exact hremoved
    rcases Nat.eq_or_lt_of_le hi with rfl | hi
    · rw [chars_empty, List.map_nil, List.map_nil, List.nil_append]
      exact hadded
    refine .append (ended_text (.inr (.inl rfl)) ?_) hadded
    rcases Nat.eq_or_lt_of_le hk with hk | hk
    · exact fun line hline => hclosed rfl hi hj hk line (mem_of_mem_chars hline)
    · exact ended_chars hleft (Nat.le_of_lt hi) hk

/-- The last edit of a difference; all lines before it have their ends. -/
theorem textItems_last (h : current ≠ updated) :
    ∃ before e i j k l,
      (textItems current updated).map Item.text =
        before ++ (e.items (linesOf current) (linesOf updated)).map Item.text ∧
      (∀ line ∈ before, Text.Ended line) ∧
      (textHunks current updated).getLast?.bind List.getLast? = some e ∧
      Covers (linesOf current) (linesOf updated) i j [e] k l ∧
      k ≤ (linesOf current).size ∧ l ≤ (linesOf updated).size := by
  have hgrouped := grouped_hunks (linesOf current) (linesOf updated)
  rw [List.getLast?_eq_some_getLast (textHunks_ne_nil h)]
  exact hgrouped.last (separate_linesOf current) (separate_linesOf updated)
    (fun _ => ne_nil_of_mem_textHunks) (textHunks_ne_nil h)

/-- Unless a line without an end is replaced, only the last line of a difference may lack its
end. -/
theorem separate_textItems (h : current ≠ updated) (hclosed : ¬ ReplacesOpenEnd current updated) :
    Text.Separate ((textItems current updated).map Item.text) := by
  obtain ⟨before, e, i, j, k, l, htext, hended, hlast, hcovers, hk, hl⟩ := textItems_last h
  rw [htext]
  refine .append hended ?_
  refine hcovers.separate (separate_linesOf current) (separate_linesOf updated) hk ?_
  -- An edit that replaces the last line: then the current text does not end open.
  intro hchange hi hj hk
  refine ended_linesOf fun hend => hclosed ⟨hend, e, hlast, hchange, ?_⟩
  cases hcovers with
  | same => cases hchange
  | change _ _ _ _ hrest =>
    cases hrest
    exact ⟨hk, hi, hj⟩

/-! ### A line joined with the next -/

/-- How many lines of the right text a line of a difference stands for. -/
def carried : List Char → Nat
  | ' ' :: _ | '+' :: _ => 1
  | _ => 0

/-- How many lines of the right text a line of a difference announces. -/
def announced (line : List Char) : Nat := ((readHead? line).map fun s => s.2.size).getD 0

/-- The sum of what lines amount to. -/
def total (amount : List Char → Nat) : List (List Char) → Nat
  | [] => 0
  | line :: rest => amount line + total amount rest

theorem total_append (amount : List Char → Nat) (ls ms : List (List Char)) :
    total amount (ls ++ ms) = total amount ls + total amount ms := by
  induction ls with
  | nil => exact (Nat.zero_add _).symm
  | cons line ls ih => rw [List.cons_append, total, total, ih, Nat.add_assoc]

theorem announced_eq_zero {c : Char} (hc : c ≠ '@') (line : List Char) :
    announced (c :: line) = 0 := by
  rw [announced, readHead?_eq_none hc]
  rfl

theorem carried_of_readHead? {line : List Char} {s : Span × Span} (h : readHead? line = some s) :
    carried line = 0 := by
  unfold carried
  split
  · rw [readHead?_eq_none (by decide)] at h
    cases h
  · rw [readHead?_eq_none (by decide)] at h
    cases h
  · rfl

theorem readLine?_balance {item : Item} {a' b' : Nat} {line : List Char}
    (h : readLine? a b line = some (item, a', b')) : b' + carried line = b + announced line := by
  unfold readLine? at h
  split at h
  · obtain ⟨s, hhead, heq⟩ := Option.map_eq_some_iff.1 h
    cases heq
    rw [carried_of_readHead? hhead, announced, hhead]
    exact Nat.add_comm ..
  · cases h
    rw [announced_eq_zero (c := ' ') (by decide)]
    rfl
  · cases h
    rw [announced_eq_zero (c := '-') (by decide)]
    rfl
  · cases h
    rw [announced_eq_zero (c := '+') (by decide)]
    rfl
  · cases h

/-- Where lines are read as items, they stand for as many lines of the right text as they
announce. -/
theorem readItems_balance {its : List Item} (h : readItems a b ls = some its) :
    b + total announced ls = total carried ls := by
  -- `b` lines of the right text are awaited: a head raises their number, and lines that stand for
  -- some bring it down to zero.
  induction ls generalizing a b its with
  | nil =>
    rw [readItems] at h
    split at h
    · next hzero => exact hzero.2
    · cases h
  | cons line ls ih =>
    rw [readItems, Option.bind_eq_bind] at h
    obtain ⟨⟨item, a', b'⟩, hline, hrest⟩ := Option.bind_eq_some_iff.1 h
    obtain ⟨items, hitems, -⟩ := Option.bind_eq_some_iff.1 hrest
    have hstep := readLine?_balance hline
    have hlater := ih hitems
    rw [total, total]
    omega

/-- Lines that read as items no longer do when a removed line and an added one are joined. -/
theorem readItems_joined {its : List Item} {before after : List (List Char)} {old new : List Char}
    (h : readItems 0 0 (before ++ ('-' :: old) :: ('+' :: new) :: after) = some its) :
    readItems 0 0 (before ++ ('-' :: old ++ '+' :: new) :: after) = none := by
  have hbalance := readItems_balance h
  cases hjoined : readItems 0 0 (before ++ ('-' :: old ++ '+' :: new) :: after) with
  | none => rfl
  | some its' =>
    have hbalance' := readItems_balance hjoined
    -- The two lines stand for one line of the right text. Joined they are a removed line, and stand
    -- for none, but as many are announced.
    have hremoved (line : List Char) : carried ('-' :: line) = 0 := rfl
    have hadded (line : List Char) : carried ('+' :: line) = 1 := rfl
    simp only [total_append, total, List.cons_append,
      announced_eq_zero (show '-' ≠ '@' by decide), announced_eq_zero (show '+' ≠ '@' by decide),
      hremoved, hadded] at hbalance hbalance'
    omega

theorem chars_to_end {all : Array String} {ds : List (List Char)} {d : List Char}
    (h : charLines all = ds ++ [d]) (hi : i < all.size) :
    Span.chars all ⟨i, all.size⟩ = ds.drop i ++ [d] := by
  have hsize : all.size = ds.length + 1 := by
    rw [← length_charLines, h, List.length_append, List.length_singleton]
  -- The lines from a place to the end are the rest of the list, and its last element is known.
  have hdrop := drop_charLines all (Nat.le_of_lt hi)
  rw [List.drop_eq_nil_of_le (Nat.le_of_eq (length_charLines all)), List.append_nil, h,
    List.drop_append_of_le_length (by omega)] at hdrop
  exact hdrop.symm

/-- The lines as they are meant: a removed line without an end, and an added one right after it. -/
theorem ReplacesOpenEnd.lines (h : current ≠ updated) (hopen : ReplacesOpenEnd current updated) :
    ∃ before old new after, (textItems current updated).map Item.text =
        before ++ ('-' :: old) :: ('+' :: new) :: after ∧
      (∀ line ∈ before, Text.Ended line) ∧ Text.Open old ∧
      Text.Separate (('+' :: new) :: after) := by
  obtain ⟨hend, e', he', hchange, hstop, hsome, hother⟩ := hopen
  obtain ⟨before, e, i, j, k, l, htext, hended, hlast, hcovers, hk, hl⟩ := textItems_last h
  obtain rfl : e' = e := Option.some.inj (he'.symm.trans hlast)
  obtain ⟨olds, old, hsplit, -, hopen⟩ :=
    ((Text.splitLines_end current.toList).resolve_left fun h => h.1 hend).2
  rw [← charLines_linesOf] at hsplit
  have holds : ∀ line ∈ olds, Text.Ended line :=
    (hsplit ▸ separate_linesOf current : Text.Separate (olds ++ [old])).ended (List.cons_ne_nil _ _)
  cases hcovers with
  | same => cases hchange
  | change _ _ _ _ hrest =>
    cases hrest
    dsimp only at hstop hsome hother
    subst hstop
    obtain ⟨new, news, hadded⟩ : ∃ new news, Span.chars (linesOf updated) ⟨j, l⟩ = new :: news :=
      List.exists_cons_of_length_pos (by rw [length_chars hl]; omega)
    refine ⟨before ++ (olds.drop i).map ('-' :: ·), old, new, news.map ('+' :: ·), ?_, ?_, hopen,
      ?_⟩
    · rw [htext, Edit.items, if_neg Bool.false_ne_true, chars_to_end hsplit hsome, hadded]
      simp [Item.text, Function.comp_def]
    · intro line hline
      rcases List.mem_append.1 hline with hline | hline
      · exact hended line hline
      · obtain ⟨line, hmem, rfl⟩ := List.mem_map.1 hline
        exact .cons rfl (holds line (List.mem_of_mem_drop hmem))
    · exact (hadded ▸ separate_chars (separate_linesOf updated) _ :
        Text.Separate (new :: news)).map_cons rfl

/-- A difference that ends by replacing a line without an end cannot be read. -/
theorem patched_of_replacesOpenEnd (h : current ≠ updated) (hname : Text.Open name.toList)
    (hopen : ReplacesOpenEnd current updated) :
    patched Text.splitLines current (render current updated name) = none := by
  obtain ⟨before, old, new, after, hlines, hended, hold, hadded⟩ := hopen.lines h
  have hread := (grouped_hunks (linesOf current) (linesOf updated)).read
    fun _ => ne_nil_of_mem_textHunks
  have hremoved : Text.Open ('-' :: old) := by
    intro c hc
    rcases List.mem_cons.1 hc with rfl | hc
    · rfl
    · exact hold c hc
  -- The reader cuts behind line ends, so it finds the removed line and the added one as one.
  have hjoined : readPatch (Text.splitLines (render current updated name).toList) =
      readItems 0 0 (before ++ ('-' :: old ++ '+' :: new) :: after) := by
    refine readPatch_render h hname (.append hended (hadded.open_append hremoved)) ?_ ?_
    · intro line hline
      rcases List.mem_append.1 hline with hline | hline
      · exact head?_of_mem_text (hlines ▸ List.mem_append_left _ hline)
      rcases List.mem_cons.1 hline with rfl | hline
      · exact fun h => absurd (Option.some.inj h) (by decide)
      · refine head?_of_mem_text (hlines ▸ List.mem_append_right _ ?_)
        exact List.mem_cons_of_mem _ (List.mem_cons_of_mem _ hline)
    · rw [hlines]
      simp
  rw [patched, hjoined, readItems_joined (hlines ▸ hread)]
  rfl

/-! ### Line feeds alone -/

theorem fed_items (hleft : ∀ line ∈ charLines left, Text.Fed line)
    (hright : ∀ line ∈ charLines right, Text.Fed line) (e : Edit) :
    ∀ line ∈ (e.items left right).map Item.text, Text.Fed line := by
  -- A mark ends no line, so a marked line has the ends of the line.
  have hmarked {mark : Char} (hmark : Text.endsLine mark = false) {line : List Char}
      (hline : Text.Fed line) : Text.Fed (mark :: line) :=
    .append (s := [mark]) (Text.Open.fed fun c hc => List.mem_singleton.1 hc ▸ hmark) hline
  intro line hline
  obtain ⟨item, hitem, rfl⟩ := List.mem_map.1 hline
  rw [Edit.items] at hitem
  split at hitem
  · obtain ⟨line, hmem, rfl⟩ := List.mem_map.1 hitem
    exact hmarked rfl (hleft line (mem_of_mem_chars hmem))
  rcases List.mem_append.1 hitem with hitem | hitem
  · obtain ⟨line, hmem, rfl⟩ := List.mem_map.1 hitem
    exact hmarked rfl (hleft line (mem_of_mem_chars hmem))
  · obtain ⟨line, hmem, rfl⟩ := List.mem_map.1 hitem
    exact hmarked rfl (hright line (mem_of_mem_chars hmem))

/-- Line ends of a difference are those of the two texts and its own line feeds. -/
theorem fed_render (h : current ≠ updated) (hname : Text.Open name.toList)
    (hcurrent : Text.Fed current.toList) (hupdated : Text.Fed updated.toList) :
    Text.Fed (render current updated name).toList := by
  have hbody {body : List Char} (h : Text.Open body) : Text.Fed (body ++ ['\n']) :=
    h.fed.append fun c hc _ => List.mem_singleton.1 hc
  have hlines {text : String} (htext : Text.Fed text.toList) :
      ∀ line ∈ charLines (linesOf text), Text.Fed line := by
    intro line hline c hc
    refine htext c ?_
    rw [← Text.flatten_splitLines text.toList, ← charLines_linesOf]
    exact List.mem_flatten_of_mem hline hc
  -- Header, heads of hunks and lines of edits, in that order.
  rw [toList_render h]
  refine Text.fed_flatten fun line hline => ?_
  rcases List.mem_append.1 hline with hline | hline
  · obtain ⟨body, hopen, rfl⟩ := headerLines_fed hname line hline
    exact hbody hopen
  rw [textItems, List.map_flatMap] at hline
  obtain ⟨hunk, _, hline⟩ := List.mem_flatMap.1 hline
  rw [hunkItems, List.map_cons] at hline
  rcases List.mem_cons.1 hline with rfl | hline
  · obtain ⟨body, hopen, htext⟩ := text_head (hunkSpan Edit.left hunk) (hunkSpan Edit.right hunk)
    exact htext ▸ hbody hopen
  · rw [List.map_flatMap] at hline
    obtain ⟨e, _, hline⟩ := List.mem_flatMap.1 hline
    exact fed_items (hlines hcurrent) (hlines hupdated) e line hline

/-- **A difference makes the one text of the other, unless it ends by replacing a last line without
an end.** Where line feeds alone end the lines of both texts, it may be read at line feeds. -/
theorem patched_render (h : current ≠ updated)
    (hname : ∀ c ∈ name.toList, Text.endsLine c = false) :
    patched Text.splitLines current (render current updated name) =
        (if ReplacesOpenEnd current updated then none else some updated) ∧
      (Text.Fed current.toList → Text.Fed updated.toList →
        patched Text.feedLines current (render current updated name) =
          patched Text.splitLines current (render current updated name)) := by
  refine ⟨?_, fun hcurrent hupdated => ?_⟩
  · split
    · next hopen => exact patched_of_replacesOpenEnd h hname hopen
    · next hclosed => exact patched_of_separate h hname (separate_textItems h hclosed)
  · rw [patched, Text.feedLines_eq (fed_render h hname hcurrent hupdated),
      Text.feedLines_eq hcurrent, patched]

theorem patched_render_replaced :
    "a\nb\n" ≠ "a\nc\n" ∧ (∀ c ∈ "x".toList, Text.endsLine c = false) ∧
      Text.Fed "a\nb\n".toList ∧ Text.Fed "a\nc\n".toList ∧
      patched Text.splitLines "a\nb\n" (render "a\nb\n" "a\nc\n" "x") = some "a\nc\n" ∧
      patched Text.feedLines "a\nb\n" (render "a\nb\n" "a\nc\n" "x") = some "a\nc\n" := by
  have hclosed : ¬ ReplacesOpenEnd "a\nb\n" "a\nc\n" := by decide +kernel
  have hother : "a\nb\n" ≠ "a\nc\n" := by decide
  have hname : Text.Open "x".toList := by decide
  obtain ⟨hlines, hfeeds⟩ := patched_render hother hname
  rw [if_neg hclosed] at hlines
  exact ⟨hother, hname, by decide, by decide, hlines,
    (hfeeds (by decide) (by decide)).trans hlines⟩

/-- The removed line and the added one are joined. -/
theorem render_joined :
    "a" ≠ "b\n" ∧ (∀ c ∈ "x".toList, Text.endsLine c = false) ∧
      render "a" "b\n" "x" = "--- x (current)\n+++ x (generated)\n@@ -1 +1 @@\n-a+b\n" ∧
      patched Text.splitLines "a" (render "a" "b\n" "x") ≠ some "b\n" := by
  have hname : Text.Open "x".toList := by decide
  exact ⟨by decide, hname, by decide +kernel, by decide +kernel⟩

-- Where other characters end lines, their lines hold no line feeds to be read at.
example : patched Text.feedLines "a\x0cb\n" (render "a\x0cb\n" "a\x0cc\n" "x") = none := by
  decide +kernel

end BoundaryTypes.Diff
