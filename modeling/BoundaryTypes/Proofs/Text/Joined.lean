/-
  `Joined` — the characters of joined texts.

  A joined text is its first piece, and then a separator with each further piece. The
  pieces can be told from a joined text when each of them shows where it ends.
-/

namespace BoundaryTypes.Text

theorem toList_intercalate_cons (separator piece : String) (pieces : List String) :
    (separator.intercalate (piece :: pieces)).toList =
      piece.toList ++ pieces.flatMap fun p => separator.toList ++ p.toList := by
  induction pieces generalizing piece with
  | nil => rw [String.intercalate_singleton, List.flatMap_nil, List.append_nil]
  | cons p ps ih =>
    rw [String.intercalate_cons_cons, String.toList_append, String.toList_append, ih,
      List.flatMap_cons]
    simp only [List.append_assoc]

section

variable {α : Type} {separator x y : List Char} {text : α → List Char} {Ends : List Char → Prop}

/-- What follows a piece, be it a separator or what follows all of them, ends the piece. -/
theorem ends_joined {as : List α} (hseparator : ∀ z, Ends (separator ++ z)) (hx : Ends x) :
    Ends ((as.flatMap fun a => separator ++ text a) ++ x) := by
  cases as with
  | nil => exact hx
  | cons a as =>
    rw [List.flatMap_cons, List.append_assoc, List.append_assoc]
    exact hseparator _

/-- Pieces that show where they end are told from a joined text, if what follows the text does not
go on like it. -/
theorem joined_append_inj {as bs : List α} (hseparator : ∀ z, Ends (separator ++ z))
    (hpiece : ∀ a ∈ as, ∀ b ∈ bs, ∀ z w, Ends z → Ends w → text a ++ z = text b ++ w →
      a = b ∧ z = w)
    (hx : Ends x) (hy : Ends y) (hgoesx : ∀ z, x ≠ separator ++ z)
    (hgoesy : ∀ z, y ≠ separator ++ z)
    (h : (as.flatMap fun a => separator ++ text a) ++ x =
      (bs.flatMap fun b => separator ++ text b) ++ y) : as = bs ∧ x = y := by
  induction as generalizing bs with
  | nil =>
    -- Where one of the two has no further piece, what follows would have to go on like one.
    cases bs with
    | nil => exact ⟨rfl, h⟩
    | cons b bs =>
      rw [List.flatMap_cons, List.append_assoc, List.append_assoc] at h
      exact absurd h (hgoesx _)
  | cons a as ih =>
    cases bs with
    | nil =>
      rw [List.flatMap_cons, List.append_assoc, List.append_assoc] at h
      exact absurd h.symm (hgoesy _)
    | cons b bs =>
      rw [List.flatMap_cons, List.flatMap_cons] at h
      simp only [List.append_assoc] at h
      obtain ⟨rfl, hrest⟩ := hpiece a List.mem_cons_self b List.mem_cons_self _ _
        (ends_joined hseparator hx) (ends_joined hseparator hy) (List.append_cancel_left h)
      obtain ⟨rfl, hxy⟩ := ih (fun a ha b hb => hpiece a (List.mem_cons_of_mem _ ha) b
        (List.mem_cons_of_mem _ hb)) hrest
      exact ⟨rfl, hxy⟩

/-- The same for a joined text of at least one piece. -/
theorem joined_cons_append_inj (Ends : List Char → Prop) {a b : α} {as bs : List α}
    (hseparator : ∀ z, Ends (separator ++ z))
    (hpiece : ∀ p ∈ a :: as, ∀ q ∈ b :: bs, ∀ z w, Ends z → Ends w → text p ++ z = text q ++ w →
      p = q ∧ z = w)
    (hx : Ends x) (hy : Ends y) (hgoesx : ∀ z, x ≠ separator ++ z)
    (hgoesy : ∀ z, y ≠ separator ++ z)
    (h : text a ++ ((as.flatMap fun a => separator ++ text a) ++ x) =
      text b ++ ((bs.flatMap fun b => separator ++ text b) ++ y)) : a :: as = b :: bs ∧ x = y := by
  obtain ⟨rfl, hrest⟩ := hpiece a List.mem_cons_self b List.mem_cons_self _ _
    (ends_joined hseparator hx) (ends_joined hseparator hy) h
  obtain ⟨rfl, hxy⟩ := joined_append_inj hseparator (fun p hp q hq => hpiece p
    (List.mem_cons_of_mem _ hp) q (List.mem_cons_of_mem _ hq)) hx hy hgoesx hgoesy hrest
  exact ⟨rfl, hxy⟩

end

end BoundaryTypes.Text
