/-
  `Lookups` — what is found on a disk after a file was replaced.

  A path that leads somewhere leads there still, and what it finds is what it found, unless it
  is the target. What was not found may be found: a new directory lets a path through. But on
  a tree nothing stands below a place where nothing was, so such a path must come out of the
  new directory by a `..` (`walk_of_later`). The target itself reads as the new text if that
  has no carriage return.
-/
import BoundaryTypes.Proofs.Disk.Completion
import Mathlib.Data.List.Induction

namespace BoundaryTypes

open Outcome Text

namespace Path

/-- The place that parts lead to from a place. -/
def follow (k : Place) (parts : List String) : Place :=
  parts.foldl (fun acc part => if part = ".." then acc.dropLast else acc ++ [part]) k

theorem follow_cons (k : Place) (part : String) (rest : List String) :
    follow k (part :: rest) = follow (if part = ".." then k.dropLast else k ++ [part]) rest := rfl

/-- Parts that lead out from below a place step up from the place itself. -/
theorem exists_up {parts : List String} {k i : Place} (hk : i <+: k)
    (hout : ¬ i <+: follow k parts) :
    ∃ before after, parts = before ++ ".." :: after ∧ follow k before = i := by
  induction parts generalizing k with
  | nil => exact absurd hk hout
  | cons part rest ih =>
    rw [follow_cons] at hout
    by_cases hnext : i <+: (if part = ".." then k.dropLast else k ++ [part])
    · obtain ⟨before, after, rfl, hbefore⟩ := ih hnext hout
      exact ⟨part :: before, after, rfl, hbefore⟩
    · -- Only a step up leads out, and only from the place itself.
      split at hnext
      · next hup =>
        refine ⟨[], rest, by rw [hup]; rfl, ?_⟩
        show k = i
        by_contra hne
        have hroot : k ≠ [] := by
          rintro rfl
          exact hne (List.prefix_nil.1 hk).symm
        rw [← List.dropLast_concat_getLast hroot] at hk hne
        rcases List.prefix_concat_iff.1 hk with heq | hk
        · exact hne heq.symm
        · exact hnext hk
      · exact absurd (hk.trans (List.prefix_append _ _)) hnext

end Path

namespace Disk

variable {d s : Disk} {p : Path} {k j : Place} {bytes : ByteArray} {mode : Nat}

/-! ### Trees -/

/-- Every entry stands in a directory. -/
def IsTree (d : Disk) : Prop :=
  ∀ k, d.entryAt? k ≠ none → d.entryAt? k.dropLast = some .directory

/-- Above an entry there are directories only. -/
theorem IsTree.above (h : d.IsTree) (hk : d.entryAt? k ≠ none) (hj : j <+: k) (hne : j ≠ k) :
    d.entryAt? j = some .directory := by
  induction k using List.reverseRecOn with
  | nil => exact absurd (List.prefix_nil.1 hj) hne
  | append_singleton init last ih =>
    -- The place above the entry is a directory, so it has directories above it in its turn.
    have hinit : d.entryAt? init = some .directory := by
      have habove := h _ hk
      rwa [List.dropLast_concat] at habove
    have hj : j <+: init := (List.prefix_concat_iff.1 hj).resolve_left hne
    by_cases heq : j = init
    · exact heq ▸ hinit
    · exact ih (by rw [hinit]; exact nofun) hj heq

/-- A disk is a tree if the directories of its entries are there. -/
theorem isTree_of_entries
    (h : ∀ k ∈ d.entries.map (·.1), d.entryAt? k.dropLast = some .directory) : d.IsTree := by
  intro k hk
  obtain ⟨e, he⟩ := Option.ne_none_iff_exists'.1 hk
  by_cases hroot : k = []
  · rw [hroot]
    rfl
  · exact h k (mem_entries_of_entryAt? hroot he)

/-! ### Ways that are new -/

/-- No `..` of a path steps up out of a directory that is there only later. -/
def LeavesNoNew (d s : Disk) (p : Path) : Prop :=
  ∀ before after, p.parts = before ++ ".." :: after →
    d.entryAt? (Path.collapse before) = none → s.entryAt? (Path.collapse before) = none

/-- A way to a file that is open later was open before, unless it steps up out of a new
directory. -/
theorem walk_of_later {parts : List String} (htree : d.IsTree)
    (hnew : ∀ i, s.entryAt? i = some .directory →
      d.entryAt? i = some .directory ∨ d.entryAt? i = none)
    (hup : ∀ before after, parts = before ++ ".." :: after →
      d.entryAt? (Path.follow k before) = none → s.entryAt? (Path.follow k before) = none)
    (hj : d.entryAt? j = some (.file bytes mode)) (hs : parts.foldlM s.step k = .ok j) :
    parts.foldlM d.step k = .ok j := by
  induction parts generalizing k with
  | nil => exact hs
  | cons part rest ih =>
    have hend : j = Path.follow k (part :: rest) := walk_eq_ok hs
    rw [List.foldlM_cons, bind_eq_ok] at hs ⊢
    obtain ⟨i, hstep, hs⟩ := hs
    obtain ⟨hdirectory, hi⟩ := step_eq_ok hstep
    -- The place may have been a directory before, so that the step was there, too.
    rcases hnew k hdirectory with hold | hnone
    · refine ⟨i, (step_congr (hold.trans hdirectory.symm)).trans hstep, ih ?_ hs⟩
      intro before after hrest
      have hup := hup (part :: before) after (by rw [hrest]; rfl)
      rwa [Path.follow_cons, ← hi] at hup
    · -- The file is not below the new directory, so the way comes out of it again.
      have hout : ¬ k <+: Path.follow k (part :: rest) := by
        rw [← hend]
        intro hbelow
        have hne : k ≠ j := by
          rintro rfl
          rw [hnone] at hj
          cases hj
        rw [htree.above (by rw [hj]; exact nofun) hbelow hne] at hnone
        cases hnone
      obtain ⟨before, after, hparts, hbefore⟩ := Path.exists_up (List.prefix_refl k) hout
      have hsame := hup before after hparts
      rw [hbefore, hdirectory] at hsame
      cases hsame hnone

theorem isFile_eq_true : d.isFile p = true ↔
    ∃ k bytes mode, d.place p = .ok k ∧ d.entryAt? k = some (.file bytes mode) := by
  unfold isFile
  constructor
  · intro h
    split at h
    · next k hk =>
      split at h
      · next bytes mode hentry => exact ⟨k, bytes, mode, hk, hentry⟩
      · cases h
    · cases h
  · rintro ⟨k, bytes, mode, hk, hentry⟩
    rw [hk]
    dsimp only
    rw [hentry]

theorem readText_eq_ok {text : String} : d.readText p = .ok text ↔
    p.hasNull = false ∧ ∃ bytes, d.readBytes p = .ok bytes ∧ textOf bytes = .ok text := by
  cases hnull : p.hasNull with
  | true =>
    rw [readText, Failure.checkName, hnull]
    exact iff_of_false (fun h => by cases h) fun h => by cases h.1
  | false =>
    rw [readText_of_noNull hnull]
    cases d.readBytes p with
    | ok bytes => simp
    | error f => simp

theorem noNull_of_readExisting {text : String} (h : d.readExisting p = .ok text) :
    p.hasNull = false := by
  cases hnull : p.hasNull with
  | false => rfl
  | true =>
    have hread : d.readText p = .error (.value .nullCharacter) := by
      rw [readText, Failure.checkName, hnull]
      rfl
    rw [readExisting, hread] at h
    cases h

/-- A text without carriage returns is read as it was written. -/
theorem textOf_toUTF8 {text : String} (h : '\r' ∉ text.toList) :
    textOf text.toUTF8 = .ok text := by
  rw [textOf, Utf8.decode_toUTF8]
  show Except.ok (withUniformLineEnds text) = _
  rw [withUniformLineEnds, unifyLineEnds_eq_self _ h, String.ofList_toList]

end Disk

/-! ### After a replacement -/

namespace Replacement.Replaced

variable {d s : Disk} {r : Replacement} {mode : Nat} {p : Path} {k : Place}

/-- Directories stay. -/
theorem directory (h : Replaced d r mode s) (hk : d.entryAt? k = some .directory) :
    s.entryAt? k = some .directory := by
  have hne : k ≠ r.target.place := by
    rintro rfl
    exact h.noDirectory hk
  exact (h.kept k hne).directory hk

/-- A path leads where it led. -/
theorem place (h : Replaced d r mode s) (hd : d.place p = .ok k) : s.place p = .ok k :=
  Disk.place_mono (fun _ hk => h.directory hk) hd

theorem isDirectory (h : Replaced d r mode s) (hd : d.isDirectory p = .ok true) :
    s.isDirectory p = .ok true := by
  obtain ⟨k, hk, hdirectory⟩ := Disk.isDirectory_eq_true.1 hd
  exact Disk.isDirectory_eq_true.2 ⟨k, h.place hk, h.directory hdirectory⟩

/-- A file other than the target stays. -/
theorem file (h : Replaced d r mode s) {bytes : ByteArray} {m : Nat} (hne : k ≠ r.target.place) :
    s.entryAt? k = some (.file bytes m) ↔ d.entryAt? k = some (.file bytes m) := by
  rw [← Disk.file?_eq_some, ← Disk.file?_eq_some, (h.kept k hne).file?_eq]

theorem readBytes (h : Replaced d r mode s) (hne : p.place ≠ r.target.place) {bytes : ByteArray}
    (hd : d.readBytes p = .ok bytes) : s.readBytes p = .ok bytes := by
  obtain ⟨k, m, hk, hentry⟩ := Disk.readBytes_eq_ok.1 hd
  obtain rfl := Disk.place_eq hk
  exact Disk.readBytes_eq_ok.2 ⟨_, m, h.place hk, (h.file hne).2 hentry⟩

/-- A text other than the target is read as it was. -/
theorem readText (h : Replaced d r mode s) (hne : p.place ≠ r.target.place) {text : String}
    (hd : d.readText p = .ok text) : s.readText p = .ok text := by
  obtain ⟨hnull, bytes, hbytes, htext⟩ := Disk.readText_eq_ok.1 hd
  exact Disk.readText_eq_ok.2 ⟨hnull, bytes, h.readBytes hne hbytes, htext⟩

/-- On a tree, no file but the target is found that was not found before, unless the path to it
steps up out of a new directory. -/
theorem isFile (h : Replaced d r mode s) (htree : d.IsTree) (hne : p.place ≠ r.target.place)
    (hup : d.LeavesNoNew s p) : s.isFile p = d.isFile p := by
  refine Bool.eq_iff_iff.2 (Disk.isFile_eq_true.trans (Iff.trans ?_ Disk.isFile_eq_true.symm))
  constructor
  · rintro ⟨k, bytes, m, hk, hentry⟩
    obtain rfl := Disk.place_eq hk
    have hold := (h.file hne).1 hentry
    refine ⟨_, bytes, m, ?_, hold⟩
    -- The target holds a file, so a directory that is there now is an old one or was made.
    have hnew : ∀ i, s.entryAt? i = some .directory →
        d.entryAt? i = some .directory ∨ d.entryAt? i = none := by
      intro i hi
      have hi' : i ≠ r.target.place := by
        rintro rfl
        rw [Disk.file?_eq_some.1 h.held] at hi
        cases hi
      rcases h.kept i hi' with hsame | ⟨hnone, -⟩
      · exact .inl (hsame ▸ hi)
      · exact .inr hnone
    unfold Disk.place at hk ⊢
    split at hk
    · cases hk
    · next hlong =>
      rw [if_neg hlong]
      exact Disk.walk_of_later htree hnew hup hold hk
  · rintro ⟨k, bytes, m, hk, hentry⟩
    obtain rfl := Disk.place_eq hk
    exact ⟨_, bytes, m, h.place hk, (h.file hne).2 hentry⟩

/-- The target is read as the text that was written, if that has no carriage return. -/
theorem readExisting (h : Replaced d r mode s) {text : String} (hbytes : r.bytes = text.toUTF8)
    (hnull : r.target.hasNull = false) (hreturn : '\r' ∉ text.toList) :
    s.readExisting r.target = .ok text := by
  have hread : s.readBytes r.target = .ok text.toUTF8 :=
    Disk.readBytes_eq_ok.2 ⟨_, mode, h.leads, hbytes ▸ Disk.file?_eq_some.1 h.held⟩
  rw [Disk.readExisting_of_bytes hnull hread]
  exact Disk.textOf_toUTF8 hreturn

end Replacement.Replaced

end BoundaryTypes
