/-
  `Items` — what the lines of hunks say is read from them, and makes the one text of the other.

  Reading and applying go along with the hunks. A stretch of lines that are kept, removed or added
  is read as such, and counts on the side on which it lies, so a hunk is read to its end and the
  next line is a head (`Grouped.read`). Applied to the lines of the left text from the place where a
  hunk begins, its items give the lines of the right text from there (`Grouped.apply`).
-/
import BoundaryTypes.Proofs.Diff.Hunks
import BoundaryTypes.Proofs.Diff.Patch

namespace BoundaryTypes.Diff

variable {left right : Array String} {i j k l m n a b : Nat} {e : Edit} {es hunk : List Edit}
  {ls rest lines out : List (List Char)} {later : List Item} {found : List (List Edit)}

/-! ### Stretches of lines -/

/-- Lines as lists of characters. -/
def charLines (all : Array String) : List (List Char) := all.toList.map String.toList

theorem length_charLines (all : Array String) : (charLines all).length = all.size := by
  rw [charLines, List.length_map, Array.length_toList]

/-- The lines of a range, as lists of characters. -/
def Span.chars (all : Array String) (s : Span) : List (List Char) :=
  (s.lines all).map String.toList

/-- The lines of a range are those behind its start, as many as it is long. -/
theorem chars_eq (all : Array String) (s : Span) :
    s.chars all = ((charLines all).drop s.start).take s.size := by
  rw [Span.chars, Span.lines, Array.toList_extract, List.extract_eq_take_drop, charLines,
    List.map_take, List.map_drop, Span.size]

theorem length_chars {all : Array String} (hk : k ≤ all.size) :
    (Span.chars all ⟨i, k⟩).length = k - i := by
  rw [chars_eq, List.length_take, List.length_drop, length_charLines, Span.size]
  exact Nat.min_eq_left (Nat.sub_le_sub_right hk i)

theorem drop_charLines (all : Array String) (hi : i ≤ k) :
    (charLines all).drop i = Span.chars all ⟨i, k⟩ ++ (charLines all).drop k := by
  rw [chars_eq, Span.size, ← Nat.add_sub_cancel' hi, Nat.add_sub_cancel_left, ← List.drop_drop,
    List.take_append_drop]

theorem Equal.chars (h : Equal left right i j n) :
    Span.chars left ⟨i, i + n⟩ = Span.chars right ⟨j, j + n⟩ := by
  rw [chars_eq, chars_eq, Span.size, Span.size, Nat.add_sub_cancel_left, Nat.add_sub_cancel_left]
  refine List.ext_getElem? fun m => ?_
  rw [List.getElem?_take, List.getElem?_take]
  split
  · next hm =>
    have hline := h m hm
    rw [charLines, charLines, List.getElem?_drop, List.getElem?_drop, List.getElem?_map,
      List.getElem?_map, Array.getElem?_toList, Array.getElem?_toList, hline]
  · rfl

/-! ### The items of a difference -/

/-- What the lines of an edit say. -/
def Edit.items (left right : Array String) (e : Edit) : List Item :=
  if e.same then (e.left.chars left).map .keep
  else (e.left.chars left).map .remove ++ (e.right.chars right).map .add

/-- What the lines of a hunk say. -/
def hunkItems (left right : Array String) (hunk : List Edit) : List Item :=
  .head (hunkSpan Edit.left hunk) (hunkSpan Edit.right hunk) ::
    hunk.flatMap (Edit.items left right)

/-- The lines that are printed for an edit are the texts of its items. -/
theorem editLines_eq (left right : Array String) (e : Edit) :
    (editLines left right e).map String.toList = (e.items left right).map Item.text := by
  -- The three kinds of lines differ in their mark alone.
  have hmark (mark : String) (item : List Char → Item)
      (htext : ∀ line, (item line).text = mark.toList ++ line) (s : Span) (all : Array String) :
      ((s.lines all).map (mark ++ ·)).map String.toList =
        ((s.chars all).map item).map Item.text := by
    simp [Span.chars, htext, Function.comp_def]
  rw [editLines, Edit.items]
  split
  · exact hmark " " .keep (fun _ => rfl) _ _
  · rw [List.map_append, List.map_append, hmark "-" .remove (fun _ => rfl),
      hmark "+" .add (fun _ => rfl)]

/-- The lines of a hunk are its head and the texts of the items of its edits. -/
theorem hunkLines_eq (left right : Array String) (hunk : List Edit) :
    (hunkLines left right hunk).map String.toList = (hunkItems left right hunk).map Item.text := by
  rw [hunkLines, hunkItems, List.map_cons, List.map_cons, List.map_flatMap, List.map_flatMap]
  congr 1
  · simp [Item.text]
  · simp only [editLines_eq]

theorem Covers.stop (h : Covers left right i j [e] k l) : e.left.stop = k ∧ e.right.stop = l := by
  cases h with
  | same _ _ rest =>
    cases rest
    exact ⟨rfl, rfl⟩
  | change _ _ _ _ rest =>
    cases rest
    exact ⟨rfl, rfl⟩

/-- A hunk is about the ranges over which it leads. -/
theorem Covers.spans (h : Covers left right i j hunk k l) (hne : hunk ≠ []) :
    hunkSpan Edit.left hunk = ⟨i, k⟩ ∧ hunkSpan Edit.right hunk = ⟨j, l⟩ := by
  -- The head of a hunk is read off its first and its last edit.
  have hfirst : ∀ e ∈ hunk.head?, e.left.start = i ∧ e.right.start = j := by
    intro e he
    cases h with
    | nil => cases he
    | same => cases he; exact ⟨rfl, rfl⟩
    | change => cases he; exact ⟨rfl, rfl⟩
  have hlast : (hunk.getLast hne).left.stop = k ∧ (hunk.getLast hne).right.stop = l := by
    rw [← List.dropLast_concat_getLast hne] at h
    obtain ⟨_, _, _, hend⟩ := h.split
    exact hend.stop
  have hhead := hfirst (hunk.head hne) (List.head?_eq_some_head hne)
  simp only [hunkSpan, List.head?_eq_some_head hne, List.getLast?_eq_some_getLast hne,
    Option.map_some, Option.getD_some, hhead, hlast, and_self]

/-! ### Reading -/

theorem readItems_cons (item : Item) {a' b' : Nat}
    (h : readLine? a b item.text = some (item, a', b'))
    (hrest : readItems a' b' rest = some later) :
    readItems a b (item.text :: rest) = some (item :: later) := by
  simp only [readItems, Option.bind_eq_bind, h, Option.bind_some, hrest]
  rfl

/-- Kept lines are awaited on both sides. -/
theorem readItems_keep (ls : List (List Char)) (h : readItems a b rest = some later) :
    readItems (a + ls.length) (b + ls.length) ((ls.map Item.keep).map Item.text ++ rest) =
      some (ls.map .keep ++ later) := by
  induction ls with
  | nil => exact h
  | cons line ls ih => exact readItems_cons (.keep line) rfl ih

/-- Removed lines are awaited on the left alone. -/
theorem readItems_remove (ls : List (List Char)) (h : readItems a b rest = some later) :
    readItems (a + ls.length) b ((ls.map Item.remove).map Item.text ++ rest) =
      some (ls.map .remove ++ later) := by
  induction ls with
  | nil => exact h
  | cons line ls ih => exact readItems_cons (.remove line) (by cases b <;> rfl) ih

/-- Added lines are awaited on the right alone. -/
theorem readItems_add (ls : List (List Char)) (h : readItems a b rest = some later) :
    readItems a (b + ls.length) ((ls.map Item.add).map Item.text ++ rest) =
      some (ls.map .add ++ later) := by
  induction ls with
  | nil => exact h
  | cons line ls ih => exact readItems_cons (.add line) (by cases a <;> rfl) ih

/-- The lines of a hunk are read as its items, and on both sides as many of them as it covers are no
longer awaited. -/
theorem Covers.read (h : Covers left right i j es k l) (hk : k ≤ left.size) (hl : l ≤ right.size)
    (hrest : readItems a b rest = some later) :
    readItems (a + (k - i)) (b + (l - j))
      ((es.flatMap (Edit.items left right)).map Item.text ++ rest) =
        some (es.flatMap (Edit.items left right) ++ later) := by
  -- Each edit gives back as many of the lines that are awaited as it covers.
  induction h with
  | nil => simpa using hrest
  | @same i j k l n es hn hequal hcovers ih =>
    have hle := hcovers.le
    have hread := readItems_keep (Span.chars left ⟨i, i + n⟩) (ih hk hl)
    rw [length_chars (by omega), Nat.add_sub_cancel_left,
      show a + (k - (i + n)) + n = a + (k - i) by omega,
      show b + (l - (j + n)) + n = b + (l - j) by omega] at hread
    rw [List.flatMap_cons, List.map_append, List.append_assoc, List.append_assoc]
    exact hread
  | @change i j i' j' k l es hi hj hsome hnext hcovers ih =>
    have hle := hcovers.le
    have hread := readItems_remove (Span.chars left ⟨i, i'⟩)
      (readItems_add (Span.chars right ⟨j, j'⟩) (ih hk hl))
    rw [length_chars (by omega), length_chars (by omega),
      show a + (k - i') + (i' - i) = a + (k - i) by omega,
      show b + (l - j') + (j' - j) = b + (l - j) by omega] at hread
    rw [List.flatMap_cons, List.map_append, List.append_assoc, List.append_assoc]
    simp only [Edit.items, Bool.false_eq_true, if_false, List.map_append, List.append_assoc]
    exact hread

/-- After a head, as many lines are awaited as it announces. -/
theorem readItems_head {s t : Span} (hs : s.start ≤ s.stop) (ht : t.start ≤ t.stop)
    (h : readItems s.size t.size rest = some later) :
    readItems 0 0 ((Item.head s t).text :: rest) = some (.head s t :: later) := by
  refine readItems_cons (.head s t) ?_ h
  rw [readLine?, readHead?_text hs ht]
  rfl

/-- **What the lines of the hunks say is read from them.** -/
theorem Grouped.read (h : Grouped left right m i j found) (hne : ∀ hunk ∈ found, hunk ≠ []) :
    readItems 0 0 ((found.flatMap (hunkItems left right)).map Item.text) =
      some (found.flatMap (hunkItems left right)) := by
  induction h with
  | nil => rfl
  | @cons i j k l m n hunk rest _ _ hhunk hrest ih =>
    obtain ⟨hleft, hright⟩ := hhunk.spans (hne hunk List.mem_cons_self)
    have hbody := hhunk.read hrest.le.1 hrest.le.2
      (ih fun h hh => hne h (List.mem_cons_of_mem _ hh))
    rw [Nat.zero_add, Nat.zero_add] at hbody
    rw [List.flatMap_cons, List.map_append, hunkItems, List.map_cons, hleft, hright]
    exact readItems_head hhunk.le.1 hhunk.le.2 hbody

/-! ### Applying -/

/-- Kept lines are taken over from the text. -/
theorem applyItems_keep
    (h : applyItems lines (i + ls.length) (j + ls.length) later = some out) :
    applyItems (ls ++ lines) i j (ls.map .keep ++ later) = some (ls ++ out) := by
  induction ls generalizing i j with
  | nil => exact h
  | cons line ls ih =>
    have hrest : applyItems (ls ++ lines) (i + 1) (j + 1) (ls.map .keep ++ later) =
        some (ls ++ out) :=
      ih (by rw [Nat.add_right_comm i, Nat.add_right_comm j]; exact h)
    rw [List.cons_append, List.map_cons, List.cons_append, applyItems, if_pos rfl, hrest]
    rfl

/-- Removed lines are taken away from the text. -/
theorem applyItems_remove (h : applyItems lines (i + ls.length) j later = some out) :
    applyItems (ls ++ lines) i j (ls.map .remove ++ later) = some out := by
  induction ls generalizing i with
  | nil => exact h
  | cons line ls ih =>
    rw [List.cons_append, List.map_cons, List.cons_append, applyItems, if_pos rfl]
    exact ih (by rw [Nat.add_right_comm]; exact h)

/-- Added lines are put in, and none of the text is taken for them. -/
theorem applyItems_add (h : applyItems lines i (j + ls.length) later = some out) :
    applyItems lines i j (ls.map .add ++ later) = some (ls ++ out) := by
  induction ls generalizing j with
  | nil => exact h
  | cons line ls ih =>
    have hrest : applyItems lines i (j + 1) (ls.map .add ++ later) = some (ls ++ out) :=
      ih (by rw [Nat.add_right_comm]; exact h)
    rw [List.map_cons, List.cons_append, applyItems, hrest]
    rfl

/-- Applied to the left text from the beginning of a hunk, its items give the right text from there,
if what follows does so behind the hunk. -/
theorem Covers.apply (h : Covers left right i j es k l) (hk : k ≤ left.size) (hl : l ≤ right.size)
    (hrest : applyItems ((charLines left).drop k) k l later = some ((charLines right).drop l)) :
    applyItems ((charLines left).drop i) i j (es.flatMap (Edit.items left right) ++ later) =
      some ((charLines right).drop j) := by
  induction h with
  | nil => exact hrest
  | @same i j k l n es hn hequal hcovers ih =>
    have hle := hcovers.le
    -- What is kept is taken from the left lines, and is what the right ones have there.
    have hlength : (Span.chars left ⟨i, i + n⟩).length = n := by
      rw [length_chars (by omega), Nat.add_sub_cancel_left]
    rw [List.flatMap_cons, List.append_assoc, drop_charLines left (Nat.le_add_right i n),
      drop_charLines right (Nat.le_add_right j n), ← hequal.chars]
    exact applyItems_keep (by rw [hlength]; exact ih hk hl hrest)
  | @change i j i' j' k l es hi hj hsome hnext hcovers ih =>
    have hle := hcovers.le
    have hleft : (Span.chars left ⟨i, i'⟩).length = i' - i := length_chars (by omega)
    have hright : (Span.chars right ⟨j, j'⟩).length = j' - j := length_chars (by omega)
    rw [List.flatMap_cons, List.append_assoc, drop_charLines left hi, drop_charLines right hj]
    simp only [Edit.items, Bool.false_eq_true, if_false, List.append_assoc]
    refine applyItems_remove (applyItems_add ?_)
    rw [hleft, hright, Nat.add_sub_cancel' hi, Nat.add_sub_cancel' hj]
    exact ih hk hl hrest

/-- A head takes over the lines up to its hunk. It fits when these are as many on the right as on
the left. -/
theorem applyItems_head {s t : Span} (hs : s.start = i + ls.length) (ht : t.start = j + ls.length)
    (h : applyItems lines (i + ls.length) (j + ls.length) later = some out) :
    applyItems (ls ++ lines) i j (.head s t :: later) = some (ls ++ out) := by
  rw [applyItems, hs, ht, Nat.add_sub_cancel_left, List.drop_left, List.take_left, h, if_pos]
  · rfl
  · exact ⟨Nat.le_add_right .., by rw [List.length_append]; exact Nat.le_add_right .., rfl⟩

/-- **The items of the hunks make the one sequence of the other.** -/
theorem Grouped.apply (h : Grouped left right m i j found) (hne : ∀ hunk ∈ found, hunk ≠ []) :
    applyItems ((charLines left).drop i) i j (found.flatMap (hunkItems left right)) =
      some ((charLines right).drop j) := by
  induction h with
  | @nil i j m n hgap hi hj =>
    -- After the last hunk the rest is kept, and the two rests are equal.
    rw [List.flatMap_nil, applyItems, drop_charLines left (Nat.le_add_right i n),
      drop_charLines right (Nat.le_add_right j n), hgap.chars, hi, hj,
      List.drop_eq_nil_of_le (Nat.le_of_eq (length_charLines left)),
      List.drop_eq_nil_of_le (Nat.le_of_eq (length_charLines right))]
  | @cons i j k l m n hunk rest _ hgap hhunk hrest ih =>
    obtain ⟨hleft, hright⟩ := hhunk.spans (hne hunk List.mem_cons_self)
    have hbody := hhunk.apply hrest.le.1 hrest.le.2
      (ih fun h hh => hne h (List.mem_cons_of_mem _ hh))
    -- A head skips the gap before its hunk.
    have hlength : (Span.chars left ⟨i, i + n⟩).length = n := by
      have := hhunk.le
      have := hrest.le
      rw [length_chars (by omega), Nat.add_sub_cancel_left]
    rw [List.flatMap_cons, hunkItems, hleft, hright, List.cons_append,
      drop_charLines left (Nat.le_add_right i n), drop_charLines right (Nat.le_add_right j n),
      ← hgap.chars]
    exact applyItems_head (by rw [hlength]) (by rw [hlength]) (by rw [hlength]; exact hbody)

end BoundaryTypes.Diff
