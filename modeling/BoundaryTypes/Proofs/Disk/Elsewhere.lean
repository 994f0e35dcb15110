/-
  `Elsewhere` — what a replacement cannot reach.

  A replacement has two places to work at: the place of its target, unless the target's name
  leads up, and the places of temporary files beside it (`Touches`). Every other place keeps
  what it holds, or gets a directory on the way to the target, on every disk that the
  replacement goes through, whether it comes to its end or not. Each step keeps this
  (`attempt_elsewhere`), so a course does.
-/
import BoundaryTypes.Proofs.Disk.Replacement

namespace BoundaryTypes

/-! ### Directories on a way -/

namespace Disk

variable {d s t : Disk} {p : Path} {k : Place}

/-- A place keeps what it holds; where there is nothing, a directory may be made on the way that a
path goes. -/
def Opened (p : Path) (d s : Disk) (k : Place) : Prop :=
  s.entryAt? k = d.entryAt? k ∨
    (d.entryAt? k = none ∧ s.entryAt? k = some .directory) ∧ ∃ n, k = (p.first n).place

theorem Opened.refl (p : Path) (d : Disk) (k : Place) : Opened p d d k := .inl rfl

theorem Opened.kept (h : Opened p d s k) : Kept d s k := h.imp_right And.left

theorem Opened.trans (h : Opened p d s k) (h' : Opened p s t k) : Opened p d t k := by
  rcases h with h | ⟨hmade, hway⟩
  · rcases h' with h' | ⟨⟨hnone, hmade⟩, hway⟩
    · exact .inl (h'.trans h)
    · exact .inr ⟨⟨h ▸ hnone, hmade⟩, hway⟩
  · rcases h' with h' | ⟨hmade', -⟩
    · exact .inr ⟨⟨hmade.1, h'.trans hmade.2⟩, hway⟩
    · -- A place that got a directory is not empty later.
      exact absurd (hmade.2.symm.trans hmade'.1) nofun

/-- Making a directory of a path changes nothing but its own place. -/
theorem opened_of_makeDirectory {n : Nat} (h : d.makeDirectory (p.first n) = .ok s) :
    Opened p d s k := by
  obtain ⟨j, hj, hentry, rfl⟩ := makeDirectory_eq_ok.1 h
  have hplace := ne_nil_of_missing hentry
  by_cases hk : k = j
  · refine .inr ⟨?_, n, hk.trans (place_eq hj)⟩
    rw [hk]
    exact ⟨hentry, entryAt?_put_self hplace _⟩
  · exact .inl (entryAt?_put_of_ne hplace _ hk)

/-- Ensuring a directory of a path changes nothing but its own place. -/
theorem opened_of_ensureDirectory {n : Nat} (h : d.ensureDirectory (p.first n) = .ok s) :
    Opened p d s k := by
  unfold ensureDirectory at h
  split at h
  · next made hmade =>
    cases h
    exact opened_of_makeDirectory hmade
  · split at h
    · cases h
    · split at h
      · cases h
        exact .refl p d k
      · cases h
      · cases h

theorem opened_made_of {n : Nat} :
    Opened p d (Made.of d (d.ensureDirectory (p.first n))).disk k := by
  cases h : d.ensureDirectory (p.first n) with
  | ok s => exact opened_of_ensureDirectory h
  | error f => exact .refl p d k

/-- Directories are made on the way only. -/
theorem opened_makeFirst (d : Disk) (p : Path) (n : Nat) (k : Place) :
    Opened p d (d.makeFirst p n).disk k := by
  induction n with
  | zero => exact opened_made_of
  | succ n ih =>
    unfold makeFirst
    split
    · next made hmade => exact opened_of_makeDirectory hmade
    · -- If a directory above it is missing, those are made first, and then it is tried again.
      split
      · dsimp only
        split
        · exact ih
        · exact ih.trans opened_made_of
      · exact opened_made_of

end Disk

namespace Replacement

variable {d : Disk} {r : Replacement} {draft : Draft} {faults : Interruptions}

/-- A place that a replacement works at: its target's, or that of a temporary file. -/
def Touches (target : Path) (k : Place) : Prop :=
  (k = target.place ∧ target.name ≠ "..") ∨ ∃ n, k = (temporaryPath target n).place

/-- A draft has changed nothing away from the places of its replacement, and its temporary file
stands at one of them. -/
structure Elsewhere (d : Disk) (r : Replacement) (draft : Draft) : Prop where
  temporary : ∀ t, draft.temporary = some t → ∃ n, t.place = (temporaryPath r.target n).place
  kept : ∀ k, ¬ Touches r.target k → Disk.Opened r.target.parent d draft.disk k

/-! ### Changes at one place -/

/-- A place that the replacement does not touch is neither its target nor a temporary file. -/
theorem ne_of_not_touches {k j : Place} (hk : ¬ Touches r.target k) (hj : Touches r.target j) :
    k ≠ j :=
  fun heq => hk (heq ▸ hj)

theorem temporary_ne_nil (target : Path) (n : Nat) : (temporaryPath target n).place ≠ [] := by
  rw [place_temporaryPath]
  exact List.append_ne_nil_of_right_ne_nil _ (List.cons_ne_nil _ _)

/-- A temporary file may be given any content. -/
theorem Elsewhere.change (h : Elsewhere d r draft) (change : ByteArray → Nat → Entry) :
    Elsewhere d r (changeTemporary draft change) := by
  unfold changeTemporary
  split
  · exact h
  · next t ht =>
    split
    · next bytes mode hentry =>
      refine ⟨h.temporary, fun k hk => (h.kept k hk).trans (.inl ?_)⟩
      have hne : k ≠ t.place := ne_of_not_touches hk (.inr (h.temporary t ht))
      exact Disk.entryAt?_put_of_ne (Disk.ne_nil_of_file hentry) _ hne
    · exact h

/-- Discarding a draft takes away the temporary file alone. -/
theorem Elsewhere.discard (h : Elsewhere d r draft) : Elsewhere d r (discard draft) := by
  unfold Replacement.discard
  split
  · exact h
  · next t ht =>
    refine ⟨nofun, fun k hk => (h.kept k hk).trans (.inl ?_)⟩
    obtain ⟨n, hn⟩ := h.temporary t ht
    have hne : k ≠ t.place := ne_of_not_touches hk (.inr ⟨n, hn⟩)
    rw [Disk.entryAt?_erase _ _ _ (hn ▸ temporary_ne_nil r.target n), if_neg hne]

/-- Creating a temporary file puts it where only the replacement writes. -/
theorem Elsewhere.create {next : Draft} (h : Elsewhere d r draft)
    (hnext : r.create draft = .ok next) : Elsewhere d r next := by
  obtain ⟨-, k, hk, hentry, rfl⟩ := create_eq_ok.1 hnext
  obtain rfl := Disk.place_eq hk
  refine ⟨fun t ht => ?_, fun j hj => (h.kept j hj).trans (.inl ?_)⟩
  · obtain rfl := Option.some.inj ht
    exact ⟨_, rfl⟩
  · have hne := ne_of_not_touches hj (.inr ⟨freeNumber draft.disk r.target, rfl⟩)
    exact Disk.entryAt?_put_of_ne (temporary_ne_nil _ _) _ hne

/-- The exchange moves the temporary file to the target and does nothing elsewhere. -/
theorem Elsewhere.exchange {next : Draft} (h : Elsewhere d r draft)
    (hnext : r.exchange draft = .ok next) : Elsewhere d r next := by
  obtain ⟨-, hname, hdirectory, t, e, ht, -, rfl⟩ := exchange_eq_ok.1 hnext
  obtain ⟨n, hn⟩ := h.temporary t ht
  refine ⟨nofun, fun k hk => (h.kept k hk).trans (.inl ?_)⟩
  -- Two places change: that of the target, and that of the temporary file.
  have htarget : k ≠ r.target.place := ne_of_not_touches hk (.inl ⟨rfl, hname⟩)
  have hne : k ≠ t.place := ne_of_not_touches hk (.inr ⟨n, hn⟩)
  rw [Disk.entryAt?_put_of_ne (Disk.ne_nil_of_entryAt?_ne hdirectory) _ htarget,
    Disk.entryAt?_erase _ _ _ (hn ▸ temporary_ne_nil r.target n), if_neg hne]

/-- Making directories changes no place that holds something. -/
theorem Elsewhere.makeFirst (h : Elsewhere d r draft) (n : Nat) :
    Elsewhere d r { draft with disk := (draft.disk.makeFirst r.target.parent n).disk } :=
  ⟨h.temporary, fun k hk => (h.kept k hk).trans (Disk.opened_makeFirst _ _ n k)⟩

/-! ### Steps and courses -/

/-- An attempt leaves other places alone, if its step does. -/
theorem elsewhere_of {x : Except Failure Draft} (h : Elsewhere d r draft)
    (hx : ∀ next, x = .ok next → Elsewhere d r next) :
    Elsewhere d r (Attempt.of draft x).draft := by
  cases x with
  | ok next => exact hx next rfl
  | error f => exact h

/-- An attempt at a step changes nothing elsewhere, whatever becomes of it. -/
theorem attempt_elsewhere (h : Elsewhere d r draft) (step : WriteStep) :
    Elsewhere d r (r.attempt faults draft step).draft := by
  rw [attempt]
  split
  · -- The step is broken off, and leaves a part of its effect.
    next i hi =>
    cases step with
    | makeDirectories => exact h.makeFirst i.progress
    | writeText => exact h.change _
    | flush => exact h.change _
    | readMode =>
      rw [interrupt]
      split
      · exact ⟨h.temporary, h.kept⟩
      · exact h
    | createTemporary => exact h
    | sync => exact h
    | changeMode => exact h
    | replace => exact h
  · -- The step is carried through, or the system refuses it.
    cases step with
    | makeDirectories => exact h.makeFirst _
    | createTemporary => exact elsewhere_of h fun next hnext => h.create hnext
    | writeText => exact h
    | flush => exact h.change _
    | sync => exact h
    | readMode =>
      refine elsewhere_of h fun next hnext => ?_
      obtain ⟨mode, -, rfl⟩ := Outcome.map_eq_ok.1 (ofSystem_eq_ok.1 hnext)
      exact ⟨h.temporary, h.kept⟩
    | changeMode => exact h.change _
    | replace => exact elsewhere_of h fun next hnext => h.exchange (ofSystem_eq_ok.1 hnext)

/-- All disks of a course, the last one too, keep what a place holds, but for a directory on the way
that a path goes. -/
def CourseKeeps (p : Path) (d : Disk) (k : Place) (c : Course) : Prop :=
  Disk.Opened p d c.last k ∧ ∀ s ∈ c.disks, Disk.Opened p d s k

variable {p : Path} {s : Disk} {k : Place}

theorem courseKeeps_still {f : Option Failure} (h : Disk.Opened p d s k) :
    CourseKeeps p d k (.still s f) :=
  ⟨h, fun _ hs => List.mem_singleton.1 hs ▸ h⟩

theorem CourseKeeps.after {c : Course} (h : CourseKeeps p d k c) (hs : Disk.Opened p d s k) :
    CourseKeeps p d k (c.after s) :=
  ⟨h.1, List.forall_mem_cons.2 ⟨hs, h.2⟩⟩

/-- All disks in the course of a replacement hold the same at a place that it does not touch, but
for directories that lead to its target. -/
theorem performAll_elsewhere (h : Elsewhere d r draft) (steps : List WriteStep)
    (hk : ¬ Touches r.target k) :
    CourseKeeps r.target.parent d k (r.performAll faults draft steps) := by
  induction steps generalizing draft with
  | nil => exact courseKeeps_still (h.kept k hk)
  | cons step rest ih =>
    have hnext : Elsewhere d r (r.attempt faults draft step).draft := attempt_elsewhere h step
    rw [performAll]
    split
    · exact (ih hnext).after (h.kept k hk)
    · have hdiscarded := hnext.discard.kept k hk
      exact ((courseKeeps_still hdiscarded).after (hnext.kept k hk)).after (h.kept k hk)

end Replacement

/-- **Elsewhere nothing happens.** On every disk of a replacement, a place that it does not work at
holds what it held, or a directory on the way to the target where there was nothing. -/
theorem Disk.writeCourse_elsewhere (d : Disk) (mask : Nat) (target : Path) (content : String)
    (faults : Interruptions) {k : Place} (hk : ¬ Replacement.Touches target k) :
    Replacement.CourseKeeps target.parent d k (d.writeCourse mask target content faults) := by
  have hstill : ∀ f, Replacement.CourseKeeps target.parent d k (.still d f) :=
    fun f => Replacement.courseKeeps_still (.refl _ d k)
  rw [writeCourse]
  split
  · exact hstill _
  · split
    · exact hstill _
    · have hstart : Replacement.Elsewhere d ⟨target, content.toUTF8, mask⟩ { disk := d } :=
        ⟨fun t ht => (by cases ht), fun j _ => .refl _ d j⟩
      exact Replacement.performAll_elsewhere hstart _ hk

end BoundaryTypes
