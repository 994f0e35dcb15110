/-
  `SideBySide` — a replacement on two disks that are alike.

  When a replacement stays away from the places at which two disks differ (`Away`), each of its
  steps finds the same on both, and leaves drafts that are alike (`DraftAlike`): the temporary file
  has the same name and stands at the same place. So the whole replacement ends alike, well or
  with the same failure, whichever steps are interrupted (`Disk.Alike.writeUnder`).
-/
import BoundaryTypes.Proofs.Disk.Alike
import BoundaryTypes.Proofs.Disk.Numbers

namespace BoundaryTypes

open Outcome

namespace Replacement

variable {K : Place → Prop} {solid : Prop} {target : Path} {n m : Nat} {d d' : Disk}
  {r : Replacement} {draft draft' : Draft} {faults : Interruptions}

/-- A replacement changes nothing at the places of `K`, and no lookup for it can tell disks apart
that differ there. -/
structure Away (K : Place → Prop) (solid : Prop) (target : Path) : Prop where
  clear : Disk.Clear K solid target
  place : ¬ K target.place
  temporary : ∀ n, Disk.Clear K solid (temporaryPath target n)

/-- Drafts on disks that are alike, with the same temporary file, away from the places of `K`. -/
structure DraftAlike (K : Place → Prop) (solid : Prop) (draft draft' : Draft) : Prop where
  disk : Disk.Alike K solid draft.disk draft'.disk
  temporary : draft'.temporary = draft.temporary
  mode : draft'.mode = draft.mode
  away : ∀ t, draft.temporary = some t → t.place ≠ [] ∧ ¬ K t.place

/-- Attempts that leave drafts that are alike, and fail alike. -/
structure Attempt.Alike (K : Place → Prop) (solid : Prop) (a a' : Attempt) : Prop where
  draft : DraftAlike K solid a.draft a'.draft
  failure : a'.failure = a.failure

/-! ### Steps -/

theorem DraftAlike.attempt_of (h : DraftAlike K solid draft draft') {x x' : Except Failure Draft}
    (hx : Both (DraftAlike K solid) x x') :
    Attempt.Alike K solid (.of draft x) (.of draft' x') := by
  cases hx with
  | ok hnext => exact ⟨hnext, rfl⟩
  | error f => exact ⟨h, rfl⟩

/-- The number of a temporary file is free on both disks or on neither. -/
theorem isFree_alike (h : Disk.Alike K solid d d')
    (hn : Disk.Clear K solid (temporaryPath target n)) :
    isFree d' target n = isFree d target n := by
  rw [isFree, isFree, Disk.status, Disk.status, h.place hn]
  cases hplace : d.place (temporaryPath target n) with
  | error cause => cases cause <;> rfl
  | ok k =>
    obtain rfl := Disk.place_eq hplace
    dsimp only
    -- A name is taken on both disks, whichever files stand there.
    rcases h.similar hn.end with hsame | ⟨_, _, _, _, he, he'⟩
    · rw [hsame]
    · rw [he, he']

/-- Both drafts get a temporary file of the same name, or both fail for the same reason. -/
theorem DraftAlike.create (h : DraftAlike K solid draft draft') (haway : Away K solid r.target) :
    Both (DraftAlike K solid) (r.create draft) (r.create draft') := by
  unfold Replacement.create
  dsimp only
  -- Every number is free on both disks or on none, so the search finds the same one.
  rw [freeNumber_congr fun n => isFree_alike h.disk (haway.temporary n)]
  generalize freeNumber draft.disk r.target = n
  cases Failure.checkName (temporaryPath r.target n) with
  | error f => exact .error f
  | ok _ =>
    rw [ok_bind, ok_bind, h.disk.locate (haway.temporary n)]
    cases hplace : draft.disk.locate (temporaryPath r.target n) with
    | error f => exact .error _
    | ok k =>
      obtain rfl := Disk.place_eq (Disk.locate_eq_ok.1 hplace)
      have hclear := (haway.temporary n).end
      rw [Failure.ofSystem, mapError_ok, ok_bind, ok_bind, h.disk.isSome hclear]
      cases hentry : draft.disk.entryAt? (temporaryPath r.target n).place with
      | some e => exact .error _
      | none =>
        have hk := h.disk.not_of_missing hclear hentry
        have hne := Disk.ne_nil_of_missing hentry
        exact .ok ⟨h.disk.put hne hk _, rfl, h.mode, fun t ht => by cases ht; exact ⟨hne, hk⟩⟩

/-- A change of the temporary file is the same on both sides: it lies where the disks agree. -/
theorem DraftAlike.change (h : DraftAlike K solid draft draft') (change : ByteArray → Nat → Entry) :
    DraftAlike K solid (changeTemporary draft change) (changeTemporary draft' change) := by
  unfold changeTemporary
  rw [h.temporary]
  split
  · exact h
  · next t ht =>
    obtain ⟨hne, hk⟩ := h.away t ht
    rw [h.disk.same _ hk]
    split
    · exact ⟨h.disk.put hne hk _, rfl, h.mode, h.away⟩
    · exact h

theorem DraftAlike.discard (h : DraftAlike K solid draft draft') :
    DraftAlike K solid (discard draft) (discard draft') := by
  unfold Replacement.discard
  rw [h.temporary]
  split
  · exact h
  · next t ht =>
    obtain ⟨hne, hk⟩ := h.away t ht
    exact ⟨h.disk.erase hne hk, rfl, h.mode, nofun⟩

/-- The mode of the target is read alike, since the target lies where the disks agree. -/
theorem targetMode_alike (h : Disk.Alike K solid d d') (haway : Away K solid r.target) :
    r.targetMode d' = r.targetMode d := by
  unfold targetMode
  rw [h.place haway.clear]
  cases hplace : d.place r.target with
  | error cause => cases cause <;> rfl
  | ok k =>
    obtain rfl := Disk.place_eq hplace
    dsimp only
    rw [h.same _ haway.place]

/-- The exchange puts the same file at the same target, or fails alike. -/
theorem DraftAlike.exchange (h : DraftAlike K solid draft draft') (haway : Away K solid r.target) :
    Both (DraftAlike K solid) (r.exchange draft) (r.exchange draft') := by
  unfold Replacement.exchange
  dsimp only
  rw [h.temporary, h.disk.place haway.clear]
  cases hplace : draft.disk.place r.target with
  | error cause => exact .error _
  | ok k =>
    obtain rfl := Disk.place_eq hplace
    rw [mapError_ok, ok_bind, ok_bind, h.disk.same _ haway.place]
    -- The conditions are asked in their order; each is the same on both disks.
    by_cases hup : r.target.name = ".."
    · rw [if_pos hup, if_pos hup]
      exact .error _
    rw [if_neg hup, if_neg hup]
    split
    · exact .error _
    · next hentry =>
      cases ht : draft.temporary with
      | none => exact .error _
      | some t =>
        obtain ⟨hne, hk⟩ := h.away t ht
        dsimp only
        rw [h.disk.same _ hk]
        cases draft.disk.entryAt? t.place with
        | none => exact .error _
        | some e =>
          have htarget : r.target.place ≠ [] := Disk.ne_nil_of_entryAt?_ne hentry
          exact .ok ⟨(h.disk.erase hne hk).put htarget haway.place e, rfl, h.mode, nofun⟩

/-- A step of the replacement does the same to both drafts, interrupted or not. -/
theorem DraftAlike.attempt (h : DraftAlike K solid draft draft') (haway : Away K solid r.target)
    (faults : Interruptions) (step : WriteStep) :
    Attempt.Alike K solid (r.attempt faults draft step) (r.attempt faults draft' step) := by
  unfold Replacement.attempt
  -- Interrupted steps leave a part of their effect, by the same progress on both.
  split
  · next i _ =>
    cases step with
    | makeDirectories =>
      have hmade := h.disk.makeFirst haway.clear.parent i.progress
      exact ⟨⟨hmade.disk, h.temporary, h.mode, h.away⟩, rfl⟩
    | writeText | flush => exact ⟨h.change _, rfl⟩
    | readMode =>
      unfold interrupt
      dsimp only
      split
      · exact ⟨⟨h.disk, h.temporary, rfl, h.away⟩, rfl⟩
      · exact ⟨h, rfl⟩
    | createTemporary | sync | changeMode | replace => exact ⟨h, rfl⟩
  · cases step with
    | makeDirectories =>
      have hmade := h.disk.makeFirst haway.clear.parent r.target.parent.parts.length
      exact ⟨⟨hmade.disk, h.temporary, h.mode, h.away⟩,
        congrArg (Option.map Failure.system) hmade.fault⟩
    | createTemporary => exact h.attempt_of (h.create haway)
    | writeText | sync => exact ⟨h, rfl⟩
    | flush => exact ⟨h.change _, rfl⟩
    | readMode =>
      unfold perform
      dsimp only
      rw [targetMode_alike h.disk haway]
      refine h.attempt_of ?_
      cases r.targetMode draft.disk with
      | error f => exact .error _
      | ok mode => exact .ok ⟨h.disk, h.temporary, rfl, h.away⟩
    | changeMode =>
      unfold perform
      dsimp only
      rw [h.mode]
      exact ⟨h.change _, rfl⟩
    | replace =>
      unfold perform
      dsimp only
      refine h.attempt_of ?_
      have hexchange := h.exchange haway
      generalize r.exchange draft = x, r.exchange draft' = x' at hexchange
      cases hexchange with
      | ok hnext => exact .ok hnext
      | error f => exact .error _

/-! ### Courses -/

/-- Courses that end on disks that are alike, well or with the same failure. -/
structure Course.Alike (K : Place → Prop) (solid : Prop) (c c' : Course) : Prop where
  last : Disk.Alike K solid c.last c'.last
  failure : c'.failure = c.failure

/-- All steps of the replacement do, by induction on those that are left. -/
theorem DraftAlike.performAll (h : DraftAlike K solid draft draft') (haway : Away K solid r.target)
    (faults : Interruptions) (steps : List WriteStep) :
    Course.Alike K solid (r.performAll faults draft steps) (r.performAll faults draft' steps) := by
  induction steps generalizing draft draft' with
  | nil => exact ⟨h.disk, rfl⟩
  | cons step rest ih =>
    unfold Replacement.performAll
    have hnext := h.attempt haway faults step
    dsimp only
    rw [hnext.failure]
    split
    · obtain ⟨hlast, hfailure⟩ := ih hnext.draft
      exact ⟨hlast, hfailure⟩
    · exact ⟨hnext.draft.discard.disk, rfl⟩

end Replacement

namespace Disk

variable {K : Place → Prop} {solid : Prop} {d d' : Disk} {target : Path}

/-- **A replacement ends alike on disks that are alike**, and leaves disks that are alike. -/
theorem Alike.writeUnder (h : Alike K solid d d') (haway : Replacement.Away K solid target)
    (faults : Interruptions) (mask : Nat) (content : String) :
    Alike K solid (Disk.writeUnder faults d mask target content).disk
        (Disk.writeUnder faults d' mask target content).disk ∧
      (Disk.writeUnder faults d' mask target content).fault =
        (Disk.writeUnder faults d mask target content).fault := by
  unfold Disk.writeUnder Disk.writeCourse
  dsimp only
  split
  · exact ⟨h, rfl⟩
  · split
    · exact ⟨h, rfl⟩
    · have hdraft : Replacement.DraftAlike K solid { disk := d } { disk := d' } :=
        ⟨h, rfl, rfl, nofun⟩
      obtain ⟨hlast, hfailure⟩ := hdraft.performAll (r := ⟨target, content.toUTF8, mask⟩) haway
        faults WriteStep.all
      exact ⟨hlast, hfailure⟩

end Disk

end BoundaryTypes
