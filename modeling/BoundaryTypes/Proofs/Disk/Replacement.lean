/-
  `Replacement` — a target is old or new, whatever happens.

  Until the last step, what is new on the disk are directories and one temporary file
  beside the target (`Beside`). `Reached` says for each step what a draft holds before
  it: where the temporary file is, its bytes and its mode. An attempt at the step either
  reaches the next one, or leaves a draft without traces but these (`attempt_spec`). The
  whole course follows by induction over the steps (`performAll_sound`): a failure gives
  back the files as they were, and the only change that a target ever sees is the last
  step.
-/
import BoundaryTypes.Proofs.Disk.Places

namespace BoundaryTypes

open Outcome

/-- The step that follows a step. -/
def WriteStep.next? : WriteStep → Option WriteStep
  | .makeDirectories => some .createTemporary
  | .createTemporary => some .writeText
  | .writeText => some .flush
  | .flush => some .sync
  | .sync => some .readMode
  | .readMode => some .changeMode
  | .changeMode => some .replace
  | .replace => none

namespace Replacement

variable {d s : Disk} {r : Replacement} {faults : Interruptions} {draft next : Draft}
  {bytes content : ByteArray} {mode : Nat} {k j : Place} {target : Path}

/-! ### Temporary files -/

/-- A temporary file is not named as its target, nor as a step up. -/
theorem temporaryName_ne (target : Path) (n : Nat) :
    temporaryName target n ≠ target.name ∧ temporaryName target n ≠ ".." := by
  have hsize : (temporaryName target n).length = target.name.length + 6 +
      (8 - (toString n).length) + (toString n).length := by
    simp only [temporaryName, String.length_append, String.length_ofList, List.length_replicate]
    have hdot : ".".length = 1 := rfl
    have hend : ".tmp".length = 4 := rfl
    omega
  constructor
  · intro h
    rw [h] at hsize
    omega
  · intro h
    rw [h] at hsize
    have hup : "..".length = 2 := rfl
    omega

theorem parts_temporaryPath (target : Path) (n : Nat) :
    (temporaryPath target n).parts = target.parts.dropLast ++ [temporaryName target n] := rfl

/-- Temporary files lie in the directory of the target. -/
theorem place_temporaryPath (target : Path) (n : Nat) :
    (temporaryPath target n).place =
      Path.collapse target.parts.dropLast ++ [temporaryName target n] := by
  rw [Path.place_of_parts_eq_append (parts_temporaryPath target n),
    if_neg (temporaryName_ne target n).2]

/-- A temporary file stands beside the target, never in its place. -/
theorem place_temporaryPath_ne (target : Path) (n : Nat) :
    (temporaryPath target n).place ≠ target.place := by
  rw [place_temporaryPath]
  intro h
  rcases List.eq_nil_or_concat target.parts with hnil | ⟨parts, name, hparts⟩
  · rw [Path.place_of_parts_eq_nil hnil] at h
    exact List.append_ne_nil_of_right_ne_nil _ (List.cons_ne_nil _ _) h
  · rw [List.concat_eq_append] at hparts
    rw [Path.place_of_parts_eq_append hparts, hparts, List.dropLast_concat] at h
    split at h
    · -- A last part `..` leads up, so the lengths differ.
      have hlength := congrArg List.length h
      rw [List.length_append, List.length_singleton, List.length_dropLast] at hlength
      omega
    · have hname := Path.name_of_parts_eq_append hparts
      have hlast := List.append_cancel_left h
      rw [List.cons.injEq, ← hname] at hlast
      exact (temporaryName_ne target n).1 hlast.1

theorem checkName_eq_ok {p : Path} {u : Unit} :
    Failure.checkName p = .ok u ↔ p.hasNull = false := by
  unfold Failure.checkName
  cases p.hasNull with
  | true => exact ⟨nofun, nofun⟩
  | false => exact ⟨fun _ => rfl, fun _ => rfl⟩

theorem ofSystem_eq_ok {α : Type} {x : Except SystemFault α} {a : α} :
    Failure.ofSystem x = .ok a ↔ x = .ok a := by
  unfold Failure.ofSystem
  cases x with
  | error f => exact ⟨nofun, nofun⟩
  | ok b => exact ⟨fun h => Except.ok.inj h ▸ rfl, fun h => Except.ok.inj h ▸ rfl⟩

/-- A temporary file is made where there is nothing. -/
theorem create_eq_ok :
    r.create draft = .ok next ↔
      let path := temporaryPath r.target (freeNumber draft.disk r.target)
      path.hasNull = false ∧ ∃ k, draft.disk.place path = .ok k ∧ draft.disk.entryAt? k = none ∧
        next = { draft with
          disk := draft.disk.put k (.file .empty privateMode)
          temporary := some ⟨path, k⟩ } := by
  dsimp only
  rw [create, bind_eq_ok]
  constructor
  · rintro ⟨u, hname, h⟩
    rw [bind_eq_ok] at h
    obtain ⟨k, hk, h⟩ := h
    refine ⟨checkName_eq_ok.1 hname, k, Disk.locate_eq_ok.1 (ofSystem_eq_ok.1 hk), ?_⟩
    cases hentry : draft.disk.entryAt? k with
    | some e =>
      rw [hentry] at h
      cases h
    | none =>
      rw [hentry] at h
      cases h
      exact ⟨rfl, rfl⟩
  · rintro ⟨hname, k, hk, hentry, rfl⟩
    refine ⟨(), checkName_eq_ok.2 hname, ?_⟩
    rw [bind_eq_ok]
    refine ⟨k, ofSystem_eq_ok.2 (Disk.locate_eq_ok.2 hk), ?_⟩
    rw [hentry]
    rfl

/-- A target is replaced unless it is a directory, by what the temporary file holds. -/
theorem exchange_eq_ok :
    r.exchange draft = .ok next ↔
      draft.disk.place r.target = .ok r.target.place ∧ r.target.name ≠ ".." ∧
      draft.disk.entryAt? r.target.place ≠ some .directory ∧
      ∃ t e, draft.temporary = some t ∧ draft.disk.entryAt? t.place = some e ∧
        next = { draft with
          disk := (draft.disk.erase t.place).put r.target.place e
          temporary := none } := by
  rw [exchange, bind_eq_ok]
  constructor
  · rintro ⟨k, hk, h⟩
    have hplace : draft.disk.place r.target = .ok k := by
      cases hp : draft.disk.place r.target with
      | error cause =>
        rw [hp] at hk
        cases hk
      | ok i =>
        rw [hp] at hk
        cases hk
        rfl
    obtain rfl := Disk.place_eq hplace
    refine ⟨hplace, ?_⟩
    by_cases hup : r.target.name = ".."
    · rw [if_pos hup] at h
      cases h
    · rw [if_neg hup] at h
      refine ⟨hup, ?_⟩
      dsimp only at h
      split at h
      · cases h
      · next hentry =>
        -- The temporary file must be known, and must still be there.
        refine ⟨fun hdir => hentry hdir, ?_⟩
        split at h
        · cases h
        · next t ht =>
          split at h
          · cases h
          · next e he =>
            cases h
            exact ⟨t, e, ht, he, rfl⟩
  · rintro ⟨hplace, hup, hentry, t, e, ht, he, rfl⟩
    refine ⟨r.target.place, ?_, ?_⟩
    · rw [hplace]
      rfl
    · rw [if_neg hup]
      dsimp only
      split
      · next hdir => exact absurd hdir hentry
      · rw [ht]
        dsimp only
        rw [he]
        rfl

/-! ### What a draft has reached -/

/-- Only directories are new, and the temporary file. -/
structure Beside (d : Disk) (r : Replacement) (bytes : ByteArray) (mode : Nat) (draft : Draft)
    (t : Temporary) : Prop where
  temporary : draft.temporary = some t
  apart : t.place ≠ r.target.place
  missing : d.entryAt? t.place = none
  held : draft.disk.entryAt? t.place = some (.file bytes mode)
  kept : ∀ k, k ≠ t.place → Disk.Kept d draft.disk k

/-- Only directories are new, and perhaps the temporary file. -/
def Pending (d : Disk) (r : Replacement) (draft : Draft) : Prop :=
  draft.temporary = none ∧ Disk.Grown d draft.disk ∨
    ∃ bytes mode t, Beside d r bytes mode draft t

/-- Whether the system says that there is no target whose mode could be read. -/
def toldMissing (faults : Interruptions) : Bool :=
  match faults .readMode with
  | some i => i.fault.cause = .missing
  | none => false

/-- The mode that the target is going to have: its own one, or that of a new file. -/
def finalMode (r : Replacement) (faults : Interruptions) (d : Disk) : Nat :=
  if toldMissing faults then newMode r.mask
  else
    match d.file? r.target.place with
    | some (_, mode) => mode
    | none => newMode r.mask

/-- A mode is the final one, if the target can be replaced at all. -/
def Settled (d : Disk) (r : Replacement) (faults : Interruptions) (s : Disk) (mode : Nat) : Prop :=
  s.place r.target = .ok r.target.place → s.entryAt? r.target.place ≠ some .directory →
    mode = r.finalMode faults d

/-- The target, which was no directory, holds the new bytes; besides, only directories are new. -/
structure Replaced (d : Disk) (r : Replacement) (mode : Nat) (s : Disk) : Prop where
  noDirectory : d.entryAt? r.target.place ≠ some .directory
  leads : s.place r.target = .ok r.target.place
  held : s.file? r.target.place = some (r.bytes, mode)
  kept : ∀ k, k ≠ r.target.place → Disk.Kept d s k

/-- What a draft holds before a step, and at the end. -/
def Reached (d : Disk) (r : Replacement) (faults : Interruptions) (draft : Draft) :
    Option WriteStep → Prop
  | some .makeDirectories | some .createTemporary =>
    draft.temporary = none ∧ Disk.Grown d draft.disk
  | some .writeText | some .flush => ∃ bytes mode t, Beside d r bytes mode draft t
  | some .sync | some .readMode => ∃ mode t, Beside d r r.bytes mode draft t
  | some .changeMode =>
    (∃ mode t, Beside d r r.bytes mode draft t) ∧ Settled d r faults draft.disk draft.mode
  | some .replace =>
    ∃ mode t, Beside d r r.bytes mode draft t ∧ Settled d r faults draft.disk mode
  | none => Replaced d r (r.finalMode faults d) draft.disk

theorem Reached.pending {step : WriteStep} (h : Reached d r faults draft (some step)) :
    Pending d r draft := by
  cases step with
  | makeDirectories => exact .inl h
  | createTemporary => exact .inl h
  | writeText => exact .inr h
  | flush => exact .inr h
  | sync =>
    obtain ⟨mode, t, h⟩ := h
    exact .inr ⟨r.bytes, mode, t, h⟩
  | readMode =>
    obtain ⟨mode, t, h⟩ := h
    exact .inr ⟨r.bytes, mode, t, h⟩
  | changeMode =>
    obtain ⟨⟨mode, t, h⟩, -⟩ := h
    exact .inr ⟨r.bytes, mode, t, h⟩
  | replace =>
    obtain ⟨mode, t, h, -⟩ := h
    exact .inr ⟨r.bytes, mode, t, h⟩

/-- While a replacement is pending, the target is what it was. -/
theorem Pending.file?_target (h : Pending d r draft) :
    draft.disk.file? r.target.place = d.file? r.target.place := by
  rcases h with ⟨-, hgrown⟩ | ⟨bytes, mode, t, h⟩
  · exact (hgrown _).file?_eq
  · exact (h.kept _ h.apart.symm).file?_eq

/-- Without its temporary file, a pending replacement has made directories and nothing else. -/
theorem Pending.grown_discard (h : Pending d r draft) : Disk.Grown d (discard draft).disk := by
  rcases h with ⟨hnone, hgrown⟩ | ⟨bytes, mode, t, h⟩
  · rw [discard, hnone]
    exact hgrown
  · rw [discard, h.temporary]
    have hplace := Disk.ne_nil_of_missing h.missing
    intro k
    by_cases hk : k = t.place
    · refine .inl ?_
      rw [Disk.entryAt?_erase _ _ _ hplace, if_pos hk, hk, h.missing]
    · refine (h.kept k hk).trans (.inl ?_)
      rw [Disk.entryAt?_erase _ _ _ hplace, if_neg hk]

/-! ### Steps -/

/-- A change of the temporary file changes the entry at its place and nothing else. -/
theorem changeTemporary_eq {t : Temporary} (ht : draft.temporary = some t)
    (hheld : draft.disk.entryAt? t.place = some (.file bytes mode))
    (change : ByteArray → Nat → Entry) :
    changeTemporary draft change =
      { draft with disk := draft.disk.put t.place (change bytes mode) } := by
  rw [changeTemporary, ht]
  dsimp only
  rw [hheld]

/-- A change of the temporary file leaves everything else alone. -/
theorem Beside.change {t : Temporary} (h : Beside d r bytes mode draft t)
    (change : ByteArray → Nat → Entry) {m : Nat} (hchange : change bytes mode = .file content m) :
    Beside d r content m (changeTemporary draft change) t ∧
      (changeTemporary draft change).disk = draft.disk.put t.place (.file content m) := by
  have hplace := Disk.ne_nil_of_file h.held
  rw [changeTemporary_eq h.temporary h.held, hchange]
  exact ⟨⟨h.temporary, h.apart, h.missing, Disk.entryAt?_put_self hplace _,
    fun k hk => (h.kept k hk).trans (.inl (Disk.entryAt?_put_of_ne hplace _ hk))⟩, rfl⟩

theorem Beside.fill {t : Temporary} (h : Beside d r bytes mode draft t) (content : ByteArray) :
    Beside d r content mode (fill draft content) t :=
  (h.change (fun _ mode => .file content mode) rfl).1

/-- An attempt leaves what it is for; if it fails, the replacement is pending. -/
structure Leaves (d : Disk) (r : Replacement) (done : Draft → Prop) (a : Attempt) : Prop where
  done : a.failure = none → done a.draft
  pending : ∀ f, a.failure = some f → Pending d r a.draft

variable {done : Draft → Prop}

theorem leaves_done (h : done next) : Leaves d r done ⟨next, none⟩ := ⟨fun _ => h, nofun⟩

theorem leaves_failed {f : Failure} (h : Pending d r next) : Leaves d r done ⟨next, some f⟩ :=
  ⟨nofun, fun _ _ => h⟩

theorem leaves_of {x : Except Failure Draft} (hpending : Pending d r draft)
    (h : ∀ next, x = .ok next → done next) : Leaves d r done (.of draft x) := by
  cases x with
  | ok next => exact leaves_done (h next rfl)
  | error f => exact leaves_failed hpending

/-- What the target's mode is read to be is final, unless the target cannot be replaced. -/
theorem settled_targetMode {t : Temporary} (h : Beside d r bytes mode draft t)
    (htold : toldMissing faults = false) {m : Nat} (hm : r.targetMode draft.disk = .ok m) :
    Settled d r faults draft.disk m := by
  intro hplace hdirectory
  rw [targetMode, hplace] at hm
  dsimp only at hm
  -- The target is apart from the temporary file, so it is still what it was on the first disk.
  have hkept := h.kept _ h.apart.symm
  rw [finalMode, htold, if_neg Bool.false_ne_true, ← hkept.file?_eq, Disk.file?]
  cases hentry : draft.disk.entryAt? r.target.place with
  | none =>
    rw [hentry] at hm
    cases hm
    rfl
  | some e =>
    cases e with
    | directory => exact absurd hentry hdirectory
    | file b m' =>
      rw [hentry] at hm
      cases hm
      rfl

/-- A change of the temporary file does not change where the target is. -/
theorem Settled.change {t : Temporary} (h : Beside d r bytes mode draft t) {m other : Nat}
    (hsettled : Settled d r faults draft.disk m) :
    Settled d r faults (draft.disk.put t.place (.file content other)) m := by
  have hplace := Disk.ne_nil_of_file h.held
  intro hleads hdirectory
  rw [Disk.entryAt?_put_of_ne hplace _ h.apart.symm] at hdirectory
  -- The ways to a place only depend on directories, and the temporary file is none.
  refine hsettled (Disk.place_mono (fun k hk => ?_) hleads) hdirectory
  by_cases hkt : k = t.place
  · rw [hkt, Disk.entryAt?_put_self hplace] at hk
    cases hk
  · rw [Disk.entryAt?_put_of_ne hplace _ hkt] at hk
    exact hk

/-- A new temporary file is empty and private, and lies beside the target. -/
theorem beside_create (hgrown : Disk.Grown d draft.disk) (h : r.create draft = .ok next) :
    ∃ t, Beside d r .empty privateMode next t := by
  obtain ⟨-, k, hk, hentry, rfl⟩ := create_eq_ok.1 h
  have hplace := Disk.ne_nil_of_missing hentry
  have hapart : k ≠ r.target.place := by
    rw [Disk.place_eq hk]
    exact place_temporaryPath_ne _ _
  exact ⟨_, rfl, hapart, (hgrown k).missing hentry, Disk.entryAt?_put_self hplace _,
    fun j hj => (hgrown j).trans (.inl (Disk.entryAt?_put_of_ne hplace _ hj))⟩

/-- After the exchange the target holds what the temporary file held, with its mode. -/
theorem replaced_exchange {t : Temporary} (h : Beside d r r.bytes mode draft t)
    (hsettled : Settled d r faults draft.disk mode) (hnext : r.exchange draft = .ok next) :
    Replaced d r (r.finalMode faults d) next.disk := by
  obtain ⟨hleads, -, hdirectory, t', e, ht, he, rfl⟩ := exchange_eq_ok.1 hnext
  rw [h.temporary] at ht
  cases ht
  rw [h.held] at he
  cases he
  have htarget : r.target.place ≠ [] := Disk.ne_nil_of_entryAt?_ne hdirectory
  have hplace := Disk.ne_nil_of_file h.held
  -- Two places change: the target holds what the temporary file held, and that file is gone.
  have hentry : ∀ k, ((draft.disk.erase t.place).put r.target.place (.file r.bytes mode)).entryAt? k
      = if k = r.target.place then some (.file r.bytes mode)
        else if k = t.place then none else draft.disk.entryAt? k := by
    intro k
    rw [Disk.entryAt?_put _ _ _ _ htarget, Disk.entryAt?_erase _ _ _ hplace]
  have hmode : mode = r.finalMode faults d := hsettled hleads hdirectory
  have hkept := h.kept _ h.apart.symm
  refine ⟨fun hd => hdirectory (hkept.directory hd), ?_, ?_, ?_⟩
  · -- Neither place was a directory, so every way is still there.
    refine Disk.place_mono (fun k hk => ?_) hleads
    have hne : k ≠ r.target.place := fun heq => hdirectory (heq ▸ hk)
    have hne' : k ≠ t.place := by
      rintro rfl
      rw [h.held] at hk
      cases hk
    rw [hentry, if_neg hne, if_neg hne']
    exact hk
  · rw [Disk.file?_eq_some, hentry, if_pos rfl, ← hmode]
  · intro k hk
    by_cases hkt : k = t.place
    · refine .inl ?_
      rw [hentry, if_neg hk, if_pos hkt, hkt, h.missing]
    · refine (h.kept k hkt).trans (.inl ?_)
      rw [hentry, if_neg hk, if_neg hkt]

/-- A step that is performed reaches the next one, or leaves the replacement pending. -/
theorem perform_spec {step : WriteStep} (h : Reached d r faults draft (some step))
    (hfault : faults step = none) :
    Leaves d r (Reached d r faults · step.next?) (r.perform draft step) := by
  cases step with
  | makeDirectories =>
    obtain ⟨hnone, hgrown⟩ := h
    have hmade := hgrown.trans (Disk.makeDirectories_spec draft.disk r.target.parent).1
    exact ⟨fun _ => ⟨hnone, hmade⟩, fun _ _ => .inl ⟨hnone, hmade⟩⟩
  | createTemporary =>
    refine leaves_of h.pending fun next hnext => ?_
    obtain ⟨t, ht⟩ := beside_create h.2 hnext
    exact ⟨.empty, privateMode, t, ht⟩
  -- The text is only buffered here; it is in the file after the flush.
  | writeText => exact leaves_done h
  | flush =>
    obtain ⟨bytes, mode, t, h⟩ := h
    exact leaves_done ⟨mode, t, h.fill r.bytes⟩
  | sync => exact leaves_done h
  | readMode =>
    refine leaves_of h.pending fun next hnext => ?_
    -- No fault said that there is no target, so the mode comes from the disk.
    obtain ⟨m, hm, rfl⟩ := map_eq_ok.1 (ofSystem_eq_ok.1 hnext)
    obtain ⟨mode, t, h⟩ := h
    have htold : toldMissing faults = false := by rw [toldMissing, hfault]
    exact ⟨⟨mode, t, h.temporary, h.apart, h.missing, h.held, h.kept⟩,
      settled_targetMode h htold hm⟩
  | changeMode =>
    obtain ⟨⟨mode, t, h⟩, hsettled⟩ := h
    obtain ⟨hbeside, hdisk⟩ := h.change (fun bytes _ => .file bytes draft.mode) rfl
    refine leaves_done ⟨draft.mode, t, hbeside, ?_⟩
    rw [hdisk]
    exact hsettled.change h
  | replace =>
    refine leaves_of h.pending fun next hnext => ?_
    obtain ⟨mode, t, h, hsettled⟩ := h
    exact replaced_exchange h hsettled (ofSystem_eq_ok.1 hnext)

/-- A step that is interrupted leaves the replacement pending, unless all that is said is that there
is no target. -/
theorem interrupt_spec {step : WriteStep} {i : Interruption}
    (h : Reached d r faults draft (some step)) (hfault : faults step = some i) :
    Leaves d r (Reached d r faults · step.next?) (r.interrupt draft i step) := by
  cases step with
  | makeDirectories =>
    obtain ⟨hnone, hgrown⟩ := h
    -- Some of the directories may have been made, and they stay.
    have hmade := Disk.makeFirst_spec draft.disk r.target.parent i.progress
    exact leaves_failed (.inl ⟨hnone, hgrown.trans hmade.1⟩)
  | createTemporary => exact leaves_failed h.pending
  | writeText =>
    obtain ⟨bytes, mode, t, h⟩ := h
    exact leaves_failed (.inr ⟨_, mode, t, h.fill _⟩)
  | flush =>
    obtain ⟨bytes, mode, t, h⟩ := h
    exact leaves_failed (.inr ⟨_, mode, t, h.fill _⟩)
  | sync => exact leaves_failed h.pending
  | readMode =>
    -- The only fault that a replacement gets over: the mode of a new file is taken then.
    have hpending := h.pending
    obtain ⟨mode, t, h⟩ := h
    rw [interrupt]
    split
    · next hmissing =>
      have htold : toldMissing faults = true := by
        rw [toldMissing, hfault]
        exact decide_eq_true hmissing
      refine leaves_done ⟨⟨mode, t, h.temporary, h.apart, h.missing, h.held, h.kept⟩, ?_⟩
      intro _ _
      rw [finalMode, htold, if_pos rfl]
    · exact leaves_failed hpending
  | changeMode => exact leaves_failed h.pending
  | replace => exact leaves_failed h.pending

/-- Every step leads from the state that it is made for to that of the next step, or fails with the
target as it was. -/
theorem attempt_spec {step : WriteStep} (h : Reached d r faults draft (some step)) :
    Leaves d r (Reached d r faults · step.next?) (r.attempt faults draft step) := by
  rw [attempt]
  split
  · next i hfault => exact interrupt_spec h hfault
  · next hfault => exact perform_spec h hfault

/-! ### Courses -/

/-- The steps are those that begin with a step, in their order. -/
def Follow : Option WriteStep → List WriteStep → Prop
  | none, [] => True
  | some step, next :: rest => next = step ∧ Follow step.next? rest
  | _, _ => False

/-- At any time the target is old or new. A failure leaves no change but directories, and a success
no other change than the new target. -/
structure Sound (d : Disk) (r : Replacement) (mode : Nat) (c : Course) : Prop where
  seen : ∀ s ∈ c.disks, s.file? r.target.place = d.file? r.target.place ∨
    s.file? r.target.place = some (r.bytes, mode)
  failed : ∀ f, c.failure = some f → Disk.Grown d c.last
  replaced : c.failure = none → Replaced d r mode c.last

theorem sound_still {f : Option Failure}
    (failed : ∀ f', f = some f' → Disk.Grown d s) (replaced : f = none → Replaced d r mode s) :
    Sound d r mode (.still s f) := by
  refine ⟨?_, failed, replaced⟩
  intro s' hs'
  obtain rfl := List.mem_singleton.1 hs'
  cases f with
  | some f => exact .inl ((failed f rfl) _).file?_eq
  | none => exact .inr (replaced rfl).held

theorem Sound.after {c : Course} (h : Sound d r mode c) (hpending : Pending d r draft) :
    Sound d r mode (c.after draft.disk) := by
  refine ⟨?_, h.failed, h.replaced⟩
  intro s hs
  rcases List.mem_cons.1 hs with rfl | hs
  · exact .inl hpending.file?_target
  · exact h.seen s hs

/-- From any step on, a replacement runs to its end or is undone. -/
theorem performAll_sound {step? : Option WriteStep} {steps : List WriteStep}
    (hsteps : Follow step? steps) (h : Reached d r faults draft step?) :
    Sound d r (r.finalMode faults d) (r.performAll faults draft steps) := by
  -- By induction on the steps that are left; what the draft has reached before them is the
  -- invariant.
  induction steps generalizing step? draft with
  | nil =>
    cases step? with
    | some step => exact hsteps.elim
    | none => exact sound_still nofun fun _ => h
  | cons step rest ih =>
    cases step? with
    | none => exact hsteps.elim
    | some first =>
      obtain ⟨rfl, hrest⟩ := hsteps
      have hnext := attempt_spec h
      rw [performAll]
      split
      · next hnone => exact (ih hrest (hnext.done hnone)).after h.pending
      · next f hf =>
        -- The disk is seen as the failed step left it, and once more without the temporary file.
        have hpending := hnext.pending f hf
        have hdiscarded : Sound d r (r.finalMode faults d)
            (.still (discard (r.attempt faults draft step).draft).disk (some f)) :=
          sound_still (fun _ _ => hpending.grown_discard) nofun
        exact (hdiscarded.after hpending).after h.pending

/-- A replacement fails with the target as it was, or replaces it as a whole. -/
theorem course_sound (r : Replacement) (faults : Interruptions) (d : Disk) :
    Sound d r (r.finalMode faults d) (r.course faults d) := by
  have hsteps : Follow (some .makeDirectories) WriteStep.all :=
    ⟨rfl, rfl, rfl, rfl, rfl, rfl, rfl, rfl, trivial⟩
  exact performAll_sound hsteps ⟨rfl, .refl d⟩

end Replacement

namespace Disk

/-- Whatever the content is, replacing a file by it is sound. -/
theorem writeCourse_sound (d : Disk) (mask : Nat) (target : Path) (content : String)
    (faults : Interruptions) :
    let r : Replacement := { target, mask, bytes := content.toUTF8 }
    Replacement.Sound d r (r.finalMode faults d) (d.writeCourse mask target content faults) := by
  intro r
  have hstill : ∀ f, Replacement.Sound d r (r.finalMode faults d) (.still d (some f)) :=
    fun f => Replacement.sound_still (fun _ _ => .refl d) nofun
  rw [writeCourse]
  split
  · exact hstill _
  · split
    · exact hstill _
    · exact Replacement.course_sound r faults d

end Disk

end BoundaryTypes
