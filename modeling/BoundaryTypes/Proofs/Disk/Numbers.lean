/-
  `Numbers` — which number a temporary file gets.

  The least free number is looked for among as many numbers as there are entries, and one more.
  That they are enough depends on the entries, but not which number is found: of two disks on which
  the same numbers are free, the one with more entries finds no other number
  (`freeNumber_congr`). For either one of the first numbers is free, or one of them is too long
  for a path, and then so is every greater one (`isFree_of_lt`).
-/
import BoundaryTypes.Proofs.Disk.Lookups

namespace BoundaryTypes

open Outcome

theorem utf8ByteSize_of_ascii {s : List Char} (h : ∀ c ∈ s, c.utf8Size = 1) :
    (String.ofList s).utf8ByteSize = s.length := by
  induction s with
  | nil => rfl
  | cons c s ih =>
    -- The size of a text is the sum over its characters.
    have hcons : String.ofList (c :: s) = String.singleton c ++ String.ofList s := by simp
    rw [hcons, String.utf8ByteSize_append, ih fun d hd => h d (List.mem_cons_of_mem _ hd),
      String.utf8ByteSize_singleton, h c List.mem_cons_self, List.length_cons, Nat.add_comm]

theorem utf8ByteSize_toString (n : Nat) : (toString n).utf8ByteSize = (toString n).length := by
  have hascii : ∀ c ∈ (toString n).toList, c.utf8Size = 1 := by
    intro c hc
    have hdigit := Text.isDigit_of_mem_toString hc
    simp only [Char.isDigit, Bool.and_eq_true, decide_eq_true_eq] at hdigit
    exact Char.utf8Size_eq_one_iff.2 (UInt32.le_trans hdigit.2 (by decide))
  have hsize := utf8ByteSize_of_ascii hascii
  rwa [String.ofList_toList, String.length_toList] at hsize

/-- A larger number has no fewer digits. -/
theorem length_toString_mono {n m : Nat} (h : n ≤ m) :
    (toString n).length ≤ (toString m).length := by
  rw [Nat.toString_eq_repr, Nat.toString_eq_repr]
  have hm : m < 10 ^ m.repr.length :=
    (Nat.length_repr_le_iff Nat.length_repr_pos).1 (Nat.le_refl _)
  exact (Nat.length_repr_le_iff Nat.length_repr_pos).2 (Nat.lt_of_le_of_lt h hm)

namespace Replacement

variable {target : Path} {n m : Nat} {d d' : Disk} {k : Place}

/-! ### Sizes -/

/-- The name of a temporary file is that of its target with a mark and a number of eight digits or
more. -/
theorem utf8ByteSize_temporaryName (target : Path) (n : Nat) :
    (temporaryName target n).utf8ByteSize =
      target.name.utf8ByteSize + 6 + max 8 (toString n).length := by
  have hpadding (count : Nat) :
      (String.ofList (List.replicate count '0')).utf8ByteSize = count := by
    rw [utf8ByteSize_of_ascii, List.length_replicate]
    intro c hc
    rw [List.eq_of_mem_replicate hc]
    rfl
  have hdot : ".".utf8ByteSize = 1 := rfl
  have htmp : ".tmp".utf8ByteSize = 4 := rfl
  rw [temporaryName, String.utf8ByteSize_append, String.utf8ByteSize_append,
    String.utf8ByteSize_append, String.utf8ByteSize_append, String.utf8ByteSize_append, hpadding,
    utf8ByteSize_toString, hdot, htmp]
  omega

theorem utf8ByteSize_temporaryName_mono (target : Path) (h : n ≤ m) :
    (temporaryName target n).utf8ByteSize ≤ (temporaryName target m).utf8ByteSize := by
  rw [utf8ByteSize_temporaryName, utf8ByteSize_temporaryName]
  have := length_toString_mono h
  omega

theorem utf8ByteSize_temporaryPath_mono (target : Path) (h : n ≤ m) :
    (temporaryPath target n).text.utf8ByteSize ≤ (temporaryPath target m).text.utf8ByteSize := by
  have hname := utf8ByteSize_temporaryName_mono target h
  have htext (n : Nat) : (temporaryPath target n).text =
      target.anchor.text ++
        "/".intercalate (target.parts.dropLast ++ [temporaryName target n]) := by
    rw [Path.text, if_neg fun h => List.append_ne_nil_of_right_ne_nil _ (List.cons_ne_nil _ _) h.2]
    rfl
  rw [htext, htext, String.utf8ByteSize_append, String.utf8ByteSize_append]
  -- The last part is joined with a separator, unless there is no other part.
  by_cases hnil : target.parts.dropLast = []
  · rw [hnil, List.nil_append, List.nil_append, String.intercalate_singleton,
      String.intercalate_singleton]
    omega
  · have hjoined (name : String) : "/".intercalate (target.parts.dropLast ++ [name]) =
        "/".intercalate target.parts.dropLast ++ "/" ++ name := by
      rw [String.intercalate_append_of_ne_nil hnil (List.cons_ne_nil _ _),
        String.intercalate_singleton]
    rw [hjoined, hjoined]
    simp only [String.utf8ByteSize_append]
    omega

/-! ### Free numbers -/

/-- If the name of a temporary file is too long, so are those with larger numbers. -/
theorem step_tooLong_mono (h : d.step k (temporaryName target n) = .error .nameTooLong)
    (hm : n ≤ m) : d.step k (temporaryName target m) = .error .nameTooLong := by
  have hname := utf8ByteSize_temporaryName_mono target hm
  unfold Disk.step at h ⊢
  -- Only in a directory can a name be too long.
  split
  · next hnone =>
    rw [hnone] at h
    cases h
  · next hfile =>
    rw [hfile] at h
    cases h
  · next hdirectory =>
    rw [hdirectory] at h
    dsimp only at h
    rw [if_neg (temporaryName_ne target n).2] at h
    rw [if_neg (temporaryName_ne target m).2]
    split at h
    · next hlong => rw [if_pos (Nat.lt_of_lt_of_le hlong hname)]
    · cases h

/-- If the path of a number is too long, so are those of the greater numbers. -/
theorem place_tooLong_mono (h : d.place (temporaryPath target n) = .error .nameTooLong)
    (hm : n ≤ m) : d.place (temporaryPath target m) = .error .nameTooLong := by
  have hway (n : Nat) : (temporaryPath target n).parts.foldlM d.step [] =
      (target.parts.dropLast.foldlM d.step [] >>= fun k => d.step k (temporaryName target n)) := by
    rw [parts_temporaryPath, List.foldlM_append]
    simp only [List.foldlM_cons, List.foldlM_nil, bind_pure]
  rw [Disk.place, hway] at h ⊢
  by_cases hlong : Disk.pathLimit < (temporaryPath target m).text.utf8ByteSize
  · rw [if_pos hlong]
  · have htext := utf8ByteSize_temporaryPath_mono target hm
    rw [if_neg fun hn => hlong (Nat.lt_of_lt_of_le hn htext)] at h
    rw [if_neg hlong]
    -- Before the last part the paths are the same, so a fault there is the same.
    cases hparent : target.parts.dropLast.foldlM d.step [] with
    | error cause =>
      rw [hparent] at h
      cases Except.error.inj h
      rfl
    | ok k =>
      rw [hparent, ok_bind] at h
      rw [ok_bind]
      exact step_tooLong_mono h hm

/-- The reasons for which a step of a path can fail. -/
theorem step_error {name : String} {cause : SystemCause} (h : d.step k name = .error cause) :
    cause = .missing ∨ cause = .notDirectory ∨ cause = .nameTooLong := by
  unfold Disk.step at h
  split at h
  · exact .inl (Except.error.inj h).symm
  · exact .inr (.inl (Except.error.inj h).symm)
  · split at h
    · cases h
    · split at h
      · exact .inr (.inr (Except.error.inj h).symm)
      · cases h

/-- A walk fails for the reason of one of its steps. -/
theorem walk_error {parts : List String} {cause : SystemCause}
    (h : parts.foldlM d.step k = .error cause) :
    cause = .missing ∨ cause = .notDirectory ∨ cause = .nameTooLong := by
  induction parts generalizing k with
  | nil => cases h
  | cons part rest ih =>
    rw [List.foldlM_cons] at h
    cases hstep : d.step k part with
    | error c =>
      rw [hstep] at h
      cases Except.error.inj h
      exact step_error hstep
    | ok j =>
      rw [hstep, ok_bind] at h
      exact ih h

/-- A number that is not free can be looked up, or its path is too long. -/
theorem isFree_eq_false (h : isFree d target n = false) :
    d.place (temporaryPath target n) = .ok (temporaryPath target n).place ∨
      d.place (temporaryPath target n) = .error .nameTooLong := by
  cases hplace : d.place (temporaryPath target n) with
  | ok k => exact .inl (congrArg _ (Disk.place_eq hplace))
  | error cause =>
    have hcause : cause = .missing ∨ cause = .notDirectory ∨ cause = .nameTooLong := by
      unfold Disk.place at hplace
      split at hplace
      · exact .inr (.inr (Except.error.inj hplace).symm)
      · exact walk_error hplace
    -- A place that is missing, or lies behind a file, would be free.
    rw [isFree, Disk.status, hplace] at h
    rcases hcause with rfl | rfl | rfl
    · cases h
    · cases h
    · exact .inr rfl

/-- If none of the first numbers is free, more than there are entries, then no number is. -/
theorem isFree_of_lt (h : ∀ n ≤ d.entries.length, isFree d target n = false)
    (hm : d.entries.length < m) : isFree d target m = false := by
  by_cases hplaces : ∀ n ≤ d.entries.length,
      d.place (temporaryPath target n) = .ok (temporaryPath target n).place
  · -- Not all of them can be taken.
    have hfree := isFree_freeNumber hplaces
    rw [h _ (freeNumber_le d target)] at hfree
    cases hfree
  · obtain ⟨n, hn, hplace⟩ : ∃ n ≤ d.entries.length,
        d.place (temporaryPath target n) ≠ .ok (temporaryPath target n).place := by
      simpa using hplaces
    -- One of them is too long, so the greater ones are as well.
    have hlong := (isFree_eq_false (h n hn)).resolve_left hplace
    rw [isFree, Disk.status, place_tooLong_mono hlong (by omega)]

/-- A longer search finds the same, if a search that came to an end in vain goes on so. -/
theorem find?_range_of_le {f : Nat → Bool} {a b : Nat} (hab : a ≤ b)
    (h : (∀ n ≤ a, f n = false) → ∀ m, a < m → f m = false) :
    (List.range (b + 1)).find? f = (List.range (a + 1)).find? f := by
  obtain ⟨c, rfl⟩ : ∃ c, b = a + c := ⟨b - a, by omega⟩
  -- The longer search goes on where the shorter one ended.
  have hsplit : List.range (a + c + 1) =
      List.range (a + 1) ++ (List.range c).map (a + 1 + ·) := by
    rw [← List.range_add]
    congr 1
    omega
  rw [hsplit, List.find?_append]
  cases hfind : (List.range (a + 1)).find? f with
  | some n => rfl
  | none =>
    have hnone : ∀ n ≤ a, f n = false := fun n hn =>
      Bool.eq_false_iff.2 (List.find?_eq_none.1 hfind n (List.mem_range.2 (by omega)))
    refine List.find?_eq_none.2 fun m hm => ?_
    obtain ⟨i, -, rfl⟩ := List.mem_map.1 hm
    rw [h hnone _ (by omega)]
    exact Bool.false_ne_true

/-- On disks on which the same numbers are free, the same number is found. -/
theorem freeNumber_congr (h : ∀ n, isFree d' target n = isFree d target n) :
    freeNumber d' target = freeNumber d target := by
  have hsame : isFree d' target = isFree d target := funext h
  rw [freeNumber, freeNumber, hsame]
  rcases Nat.le_total d.entries.length d'.entries.length with hle | hle
  · rw [find?_range_of_le hle fun hnone m hm => isFree_of_lt hnone hm]
  · rw [← hsame, find?_range_of_le hle fun hnone m hm => isFree_of_lt hnone hm]

end Replacement

end BoundaryTypes
