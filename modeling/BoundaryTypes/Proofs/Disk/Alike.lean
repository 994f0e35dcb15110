/-
  `Alike` — two disks on which the same lookups find the same.

  Two disks differ at some places only (`Alike`). A lookup that passes none of them finds the same
  on both. If both disks hold files there, even a lookup that passes one of them ends alike, since
  nothing but the reading of a file tells two files apart; then the disks are called solid. Making
  directories ends alike, and leaves disks that are alike.
-/
import BoundaryTypes.Proofs.Disk.Lookups

namespace BoundaryTypes

open Outcome

/-! ### Outcomes that are alike -/

/-- Two outcomes with related values, or with the same fault. -/
inductive Outcome.Both {ε α β : Type} (R : α → β → Prop) : Except ε α → Except ε β → Prop
  | ok {a : α} {b : β} (h : R a b) : Both R (.ok a) (.ok b)
  | error (e : ε) : Both R (.error e) (.error e)

namespace Disk

variable {K : Place → Prop} {solid : Prop} {d d' : Disk} {p : Path} {k : Place}

/-! ### The relation -/

/-- Two disks that differ at places of `K` only; if they are solid, both hold files there. -/
structure Alike (K : Place → Prop) (solid : Prop) (d d' : Disk) : Prop where
  same : ∀ k, ¬ K k → d'.entryAt? k = d.entryAt? k
  files : solid → ∀ k, K k → d.file? k ≠ none ∧ d'.file? k ≠ none

/-- No lookup along a path can tell disks apart that are alike. -/
def Clear (K : Place → Prop) (solid : Prop) (p : Path) : Prop :=
  solid ∨ ∀ n, ¬ K (p.first n).place

/-- Entries that nothing but the reading of a file can tell apart. -/
def Similar (e e' : Option Entry) : Prop :=
  e' = e ∨ ∃ bytes mode bytes' mode', e = some (.file bytes mode) ∧ e' = some (.file bytes' mode')

theorem Alike.refl (K : Place → Prop) (d : Disk) : Alike K False d d :=
  ⟨fun _ _ => rfl, False.elim⟩

/-- At a place that may be looked at, both disks hold the same, or a file each. -/
theorem Alike.similar (h : Alike K solid d d') (hk : solid ∨ ¬ K k) :
    Similar (d.entryAt? k) (d'.entryAt? k) := by
  -- Only solid disks may be looked at where they differ, and there both hold a file.
  by_cases hK : K k
  · obtain ⟨hd, hd'⟩ := h.files (hk.resolve_right (not_not_intro hK)) k hK
    obtain ⟨⟨bytes, mode⟩, hfile⟩ := Option.ne_none_iff_exists'.1 hd
    obtain ⟨⟨bytes', mode'⟩, hfile'⟩ := Option.ne_none_iff_exists'.1 hd'
    exact .inr ⟨bytes, mode, bytes', mode', file?_eq_some.1 hfile, file?_eq_some.1 hfile'⟩
  · exact .inl (h.same k hK)

theorem Clear.prefix (h : Clear K solid p) (n : Nat) : solid ∨ ¬ K (p.first n).place :=
  h.imp_right fun h => h n

theorem Clear.end (h : Clear K solid p) : solid ∨ ¬ K p.place := by
  have hend := h.prefix p.parts.length
  rwa [Path.first_length] at hend

/-- The beginning of a clear path is clear. -/
theorem Clear.first (h : Clear K solid p) (n : Nat) : Clear K solid (p.first n) := by
  refine h.imp_right fun h m => ?_
  have hfirst : (p.first n).first m = p.first (min m n) := by
    rw [Path.first, Path.first, Path.first, List.take_take]
  exact hfirst ▸ h _

theorem Clear.parent (h : Clear K solid p) : Clear K solid p.parent := by
  have hparent : p.parent = p.first (p.parts.length - 1) := by
    rw [Path.parent, Path.first, List.dropLast_eq_take]
  exact hparent ▸ h.first _

/-! ### Ways -/

/-- A step of a path does not tell one file from another. -/
theorem step_similar (h : Similar (d.entryAt? k) (d'.entryAt? k)) (name : String) :
    d'.step k name = d.step k name := by
  rcases h with h | ⟨_, _, _, _, he, he'⟩
  · exact step_congr h
  · rw [step, step, he, he']

/-- A walk ends alike, if the disks hold similar entries at every place it comes through. -/
theorem walk_similar {parts : List String} (h : ∀ before after, parts = before ++ after →
    Similar (d.entryAt? (Path.follow k before)) (d'.entryAt? (Path.follow k before))) :
    parts.foldlM d'.step k = parts.foldlM d.step k := by
  induction parts generalizing k with
  | nil => rfl
  | cons part rest ih =>
    have hhere : Similar (d.entryAt? k) (d'.entryAt? k) := h [] (part :: rest) rfl
    rw [List.foldlM_cons, List.foldlM_cons, step_similar hhere]
    cases hstep : d.step k part with
    | error cause => rfl
    | ok j =>
      rw [ok_bind, ok_bind]
      -- The way from the next place passes the places that are left.
      refine ih fun before after hrest => ?_
      have hlater := h (part :: before) after (by rw [hrest]; rfl)
      rwa [Path.follow_cons, ← (step_eq_ok hstep).2] at hlater

/-- A path leads to the same place. -/
theorem Alike.place (h : Alike K solid d d') (hp : Clear K solid p) : d'.place p = d.place p := by
  have hway : p.parts.foldlM d'.step [] = p.parts.foldlM d.step [] := by
    refine walk_similar fun before after hparts => h.similar ?_
    have hfirst := hp.prefix before.length
    rwa [Path.place, Path.first, hparts, List.take_left] at hfirst
  rw [Disk.place, Disk.place, hway]

theorem Alike.locate (h : Alike K solid d d') (hp : Clear K solid p) :
    d'.locate p = d.locate p := by
  rw [Disk.locate, Disk.locate, h.place hp]

/-! ### Lookups -/

/-- What is at a path is the same on both disks, if they do not differ there. -/
theorem Alike.status (h : Alike K solid d d') (hp : Clear K solid p) (hk : ¬ K p.place) :
    d'.status p = d.status p := by
  rw [Disk.status, Disk.status, h.place hp]
  cases hplace : d.place p with
  | error cause => cases cause <;> rfl
  | ok k => exact congrArg Except.ok (h.same k (place_eq hplace ▸ hk))

/-- A path leads to a directory on both disks or on neither, even where their files differ. -/
theorem Alike.isDirectory (h : Alike K solid d d') (hp : Clear K solid p) :
    d'.isDirectory p = d.isDirectory p := by
  rw [Disk.isDirectory, Disk.isDirectory, Disk.status, Disk.status, h.place hp]
  cases hplace : d.place p with
  | error cause => cases cause <;> rfl
  | ok k =>
    obtain rfl := place_eq hplace
    dsimp only
    -- Two files are no directory, either of them.
    rcases h.similar hp.end with hsame | ⟨_, _, _, _, he, he'⟩
    · rw [hsame]
    · rw [he, he']
      rfl

/-- A path leads to a file on both disks or on neither, even where their files differ. -/
theorem Alike.isFile (h : Alike K solid d d') (hp : Clear K solid p) :
    d'.isFile p = d.isFile p := by
  rw [Disk.isFile, Disk.isFile, h.place hp]
  cases hplace : d.place p with
  | error cause => rfl
  | ok k =>
    obtain rfl := place_eq hplace
    dsimp only
    rcases h.similar hp.end with hsame | ⟨_, _, _, _, he, he'⟩
    · rw [hsame]
    · rw [he, he']

/-- The text of a file is the same on both disks, if they do not differ there. -/
theorem Alike.readText (h : Alike K solid d d') (hp : Clear K solid p) (hk : ¬ K p.place) :
    d'.readText p = d.readText p := by
  have hbytes : d'.readBytes p = d.readBytes p := by
    rw [readBytes, readBytes, h.locate hp]
    cases hplace : d.locate p with
    | error f => rfl
    | ok k =>
      rw [ok_bind, ok_bind, h.same k (place_eq (locate_eq_ok.1 hplace) ▸ hk)]
  rw [Disk.readText, Disk.readText, hbytes]

theorem Alike.readExisting (h : Alike K solid d d') (hp : Clear K solid p) (hk : ¬ K p.place) :
    d'.readExisting p = d.readExisting p := by
  rw [Disk.readExisting, Disk.readExisting, h.readText hp hk]

/-! ### Changes -/

/-- The same entry may be put on both disks where they agree. -/
theorem Alike.put (h : Alike K solid d d') (hne : k ≠ []) (hk : ¬ K k) (e : Entry) :
    Alike K solid (d.put k e) (d'.put k e) := by
  constructor
  · intro j hj
    rw [entryAt?_put _ _ _ _ hne, entryAt?_put _ _ _ _ hne, h.same j hj]
  · intro hsolid j hj
    have hne' : j ≠ k := fun heq => hk (heq ▸ hj)
    rw [file?_congr (entryAt?_put_of_ne hne e hne'), file?_congr (entryAt?_put_of_ne hne e hne')]
    exact h.files hsolid j hj

/-- An entry may be taken from both disks where they agree. -/
theorem Alike.erase (h : Alike K solid d d') (hne : k ≠ []) (hk : ¬ K k) :
    Alike K solid (d.erase k) (d'.erase k) := by
  have hothers (d : Disk) {j : Place} (hj : K j) : (d.erase k).entryAt? j = d.entryAt? j := by
    rw [entryAt?_erase _ _ _ hne, if_neg (by rintro rfl; exact hk hj)]
  constructor
  · intro j hj
    rw [entryAt?_erase _ _ _ hne, entryAt?_erase _ _ _ hne, h.same j hj]
  · intro hsolid j hj
    rw [file?_congr (hothers d hj), file?_congr (hothers d' hj)]
    exact h.files hsolid j hj

/-- Whether something is at a place is the same on both disks. -/
theorem Alike.isSome (h : Alike K solid d d') (hk : solid ∨ ¬ K k) :
    (d'.entryAt? k).isSome = (d.entryAt? k).isSome := by
  rcases h.similar hk with hsame | ⟨_, _, _, _, he, he'⟩
  · rw [hsame]
  · rw [he, he']
    rfl

/-- A place where nothing is on the one disk is no place at which the disks may differ. -/
theorem Alike.not_of_missing (h : Alike K solid d d') (hp : solid ∨ ¬ K k)
    (hnone : d.entryAt? k = none) : ¬ K k := by
  intro hk
  obtain ⟨hd, -⟩ := h.files (hp.resolve_right (not_not_intro hk)) k hk
  exact hd (by rw [file?, hnone])

/-! ### Making directories -/

/-- A directory is made on both disks, or on neither and for the same reason. -/
theorem Alike.makeDirectory (h : Alike K solid d d') (hp : Clear K solid p) :
    Both (Alike K solid) (d.makeDirectory p) (d'.makeDirectory p) := by
  rw [Disk.makeDirectory, Disk.makeDirectory, h.locate hp]
  cases hplace : d.locate p with
  | error f => exact .error f
  | ok k =>
    obtain rfl := place_eq (locate_eq_ok.1 hplace)
    rw [ok_bind, ok_bind]
    -- Whether there is something decides, so the places at which files differ do not matter.
    rw [h.isSome hp.end]
    cases hentry : d.entryAt? p.place with
    | none =>
      have hk := h.not_of_missing hp.end hentry
      exact .ok (h.put (ne_nil_of_missing hentry) hk _)
    | some e => exact .error _

theorem Alike.ensureDirectory (h : Alike K solid d d') (hp : Clear K solid p) :
    Both (Alike K solid) (d.ensureDirectory p) (d'.ensureDirectory p) := by
  unfold Disk.ensureDirectory
  have hmake := h.makeDirectory hp
  generalize d.makeDirectory p = made, d'.makeDirectory p = made' at hmake
  cases hmake with
  | ok hmade => exact .ok hmade
  | error f =>
    dsimp only
    split
    · exact .error f
    · rw [h.isDirectory hp]
      split
      · exact .ok h
      · exact .error f
      · exact .error _

/-- Making directories ends alike and leaves disks that are alike. -/
structure Made.Alike (K : Place → Prop) (solid : Prop) (m m' : Made) : Prop where
  disk : Disk.Alike K solid m.disk m'.disk
  fault : m'.fault = m.fault

theorem Alike.made_of (h : Alike K solid d d') {r r' : Except SystemFault Disk}
    (hr : Both (Alike K solid) r r') : Made.Alike K solid (.of d r) (.of d' r') := by
  cases hr with
  | ok hmade => exact ⟨hmade, rfl⟩
  | error f => exact ⟨h, rfl⟩

/-- The directories of a path are made one after another, and come as far on both disks. -/
theorem Alike.makeFirst (h : Alike K solid d d') (hp : Clear K solid p) (n : Nat) :
    Made.Alike K solid (d.makeFirst p n) (d'.makeFirst p n) := by
  induction n with
  | zero => exact h.made_of (h.ensureDirectory (hp.first 0))
  | succ n ih =>
    unfold Disk.makeFirst
    have hmake := h.makeDirectory (hp.first (n + 1))
    generalize d.makeDirectory (p.first (n + 1)) = made,
      d'.makeDirectory (p.first (n + 1)) = made' at hmake
    cases hmake with
    | ok hmade => exact ⟨hmade, rfl⟩
    | error f =>
      dsimp only
      split
      · -- If a directory above it is missing, those are made first, and then it is tried again.
        rw [ih.fault]
        split
        · exact ih
        · exact ih.disk.made_of (ih.disk.ensureDirectory (hp.first (n + 1)))
      · exact h.made_of (h.ensureDirectory (hp.first (n + 1)))

end Disk

end BoundaryTypes
