/-
  `Completion` — when a replacement comes to its end.

  A target can be replaced if its directories can be made, if there is nothing or a file
  at its place, and if the names of temporary files beside it are not too long
  (`Replaceable`). One of the candidates is free then, because there are more of them
  than entries on the disk, and without interruptions every step is carried through. Such
  a target can be read too, or is missing (`Replaceable.readExisting`). Together with what
  holds of every course, this is what a replacement promises (`writeUnder_atomic`).
-/
import BoundaryTypes.Proofs.Disk.Replacement
import BoundaryTypes.Text.DecimalDigit
import Mathlib.Data.List.Perm.Subperm
import Mathlib.Data.List.Nodup

namespace BoundaryTypes

open Outcome Text

/-- What it takes to replace a file without interruptions. -/
structure Disk.Replaceable (d : Disk) (target : Path) : Prop where
  noNull : target.hasNull = false
  /-- The directories of the target are there or can be made. -/
  parents : (d.makeDirectories target.parent).fault = none
  /-- There is nothing or a file then. -/
  noDirectory : ∃ e, (d.makeDirectories target.parent).disk.status target = .ok e ∧
    e ≠ some .directory
  /-- Temporary files have room beside the target. -/
  room : ∀ n ≤ (d.makeDirectories target.parent).disk.entries.length,
    (Replacement.temporaryName target n).utf8ByteSize ≤ Disk.nameLimit ∧
      (Replacement.temporaryPath target n).text.utf8ByteSize ≤ Disk.pathLimit

/-- A target is replaceable where nothing or a file is, if the numbers up to the count of entries
leave room for the names of temporary files. -/
theorem Disk.replaceable_of_length {d : Disk} {target : Path} {e : Option Entry} (count : Nat)
    (hnull : target.hasNull = false) (hparents : (d.makeDirectories target.parent).fault = none)
    (hstatus : (d.makeDirectories target.parent).disk.status target = .ok e)
    (he : e ≠ some .directory)
    (hcount : (d.makeDirectories target.parent).disk.entries.length = count)
    (hroom : ∀ n ≤ count, (Replacement.temporaryName target n).utf8ByteSize ≤ Disk.nameLimit ∧
      (Replacement.temporaryPath target n).text.utf8ByteSize ≤ Disk.pathLimit) :
    d.Replaceable target := by
  refine ⟨hnull, hparents, ⟨e, hstatus, he⟩, ?_⟩
  rw [hcount]
  exact hroom

/-- A name that leads up would be that of a directory. -/
theorem Disk.Replaceable.name_ne_up {d : Disk} {target : Path} (h : d.Replaceable target) :
    target.name ≠ ".." := by
  intro hup
  have hleads := (Disk.makeDirectories_spec d target.parent).2 h.parents
  obtain ⟨e, he, hfile⟩ := h.noDirectory
  obtain ⟨-, hentry⟩ := Disk.status_of_leads hleads he
  rw [Path.place_of_name_eq_up hup, hleads.above] at hentry
  exact hfile hentry.symm

namespace Replacement

variable {d : Disk} {target : Path} {r : Replacement} {draft : Draft}

/-! ### A free name -/

theorem ofDigitChars_zeros (count : Nat) (digits : List Char) :
    Nat.ofDigitChars 10 (List.replicate count '0' ++ digits) 0 = Nat.ofDigitChars 10 digits 0 := by
  induction count with
  | zero => rfl
  | succ count ih =>
    rw [List.replicate_succ, List.cons_append, Nat.ofDigitChars_cons]
    exact ih

/-- Temporary files with different numbers have different names. -/
theorem temporaryName_injective (target : Path) : Function.Injective (temporaryName target) := by
  intro m n h
  have hlist := congrArg String.toList h
  simp only [temporaryName, String.toList_append, String.toList_ofList] at hlist
  have hpadded := List.append_cancel_right hlist
  rw [List.append_assoc, List.append_assoc _ _ (toString n).toList] at hpadded
  have hdigits := List.append_cancel_left hpadded
  have hvalue := congrArg (fun cs => Nat.ofDigitChars 10 cs 0) hdigits
  simpa only [ofDigitChars_zeros, Nat.toString_eq_repr, Nat.toList_repr,
    Nat.ofDigitChars_ten_toDigits] using hvalue

theorem place_temporaryPath_injective (target : Path) :
    Function.Injective fun n => (temporaryPath target n).place := by
  intro m n h
  dsimp only at h
  rw [place_temporaryPath, place_temporaryPath] at h
  have hlast := List.append_cancel_left h
  rw [List.cons.injEq] at hlast
  exact temporaryName_injective target hlast.1

/-- Beside the name of the target, a temporary name has only digits and its ending. -/
theorem not_mem_temporaryName {c : Char} (hname : c ∉ target.name.toList)
    (hdigit : c.isDigit = false) (hend : c ∉ ".tmp".toList) (n : Nat) :
    c ∉ (temporaryName target n).toList := by
  intro hc
  simp only [temporaryName, String.toList_append, String.toList_ofList, List.mem_append] at hc
  obtain ((((hc | hc) | hc) | hc) | hc) | hc := hc
  · obtain rfl := List.mem_singleton.1 hc
    exact hend List.mem_cons_self
  · exact hname hc
  · obtain rfl := List.mem_singleton.1 hc
    exact hend List.mem_cons_self
  · rw [List.eq_of_mem_replicate hc] at hdigit
    cases hdigit
  · rw [isDigit_of_mem_toString hc] at hdigit
    cases hdigit
  · exact hend hc

theorem hasNull_temporaryPath (h : target.hasNull = false) (n : Nat) :
    (temporaryPath target n).hasNull = false := by
  rw [Path.hasNull_eq_false] at h ⊢
  have hname : '\x00' ∉ target.name.toList := by
    rw [Path.name]
    cases hlast : target.parts.getLast? with
    | none => exact List.not_mem_nil
    | some name => exact h name (List.mem_of_getLast? hlast)
  intro part hpart
  rcases List.mem_append.1 hpart with hbefore | hlast
  · exact h part (List.dropLast_subset _ hbefore)
  · obtain rfl := List.mem_singleton.1 hlast
    exact not_mem_temporaryName hname (by decide) (by decide) n

/-- A number is free exactly when nothing is at the place of its temporary file. -/
theorem isFree_eq_true {n : Nat}
    (h : d.place (temporaryPath target n) = .ok (temporaryPath target n).place) :
    isFree d target n = true ↔ d.entryAt? (temporaryPath target n).place = none := by
  rw [isFree, Disk.status_of_place h]
  cases d.entryAt? (temporaryPath target n).place with
  | none => exact iff_of_true rfl rfl
  | some e => exact iff_of_false Bool.false_ne_true (Option.some_ne_none e)

/-- Among more numbers than there are entries, one is free. -/
theorem freeNumber_le (d : Disk) (target : Path) : freeNumber d target ≤ d.entries.length := by
  rw [freeNumber]
  cases hfind : (List.range (d.entries.length + 1)).find? (isFree d target) with
  | none => exact Nat.zero_le _
  | some n => exact Nat.lt_succ_iff.1 (List.mem_range.1 (List.mem_of_find?_eq_some hfind))

/-- If all candidates can be looked up, one of them is free: there are more than entries. -/
theorem isFree_freeNumber (h : ∀ n ≤ d.entries.length,
    d.place (temporaryPath target n) = .ok (temporaryPath target n).place) :
    isFree d target (freeNumber d target) = true := by
  rw [freeNumber]
  cases hfind : (List.range (d.entries.length + 1)).find? (isFree d target) with
  | some n => exact List.find?_some hfind
  | none =>
    have htaken : ∀ n ∈ List.range (d.entries.length + 1),
        (temporaryPath target n).place ∈ d.entries.map (·.1) := by
      intro n hn
      have hn' : n ≤ d.entries.length := Nat.lt_succ_iff.1 (List.mem_range.1 hn)
      have hbusy := List.find?_eq_none.1 hfind n hn
      rw [isFree_eq_true (h n hn')] at hbusy
      cases hentry : d.entryAt? (temporaryPath target n).place with
      | none => exact absurd hentry hbusy
      | some e =>
        refine Disk.mem_entries_of_entryAt? ?_ hentry
        rw [place_temporaryPath]
        exact List.append_ne_nil_of_right_ne_nil _ (List.cons_ne_nil _ _)
    have hnodup : ((List.range (d.entries.length + 1)).map
        fun n => (temporaryPath target n).place).Nodup :=
      List.nodup_range.map (place_temporaryPath_injective target)
    have hsubset : ((List.range (d.entries.length + 1)).map
        fun n => (temporaryPath target n).place) ⊆ d.entries.map (·.1) := by
      intro k hk
      obtain ⟨n, hn, rfl⟩ := List.mem_map.1 hk
      exact htaken n hn
    have hlength := (List.subperm_of_subset hnodup hsubset).length_le
    rw [List.length_map, List.length_map, List.length_range] at hlength
    omega

/-! ### Steps that are carried through -/

/-- The temporary file is there, and the target can take its place. -/
structure Awaited (r : Replacement) (draft : Draft) (t : Temporary) : Prop where
  temporary : draft.temporary = some t
  apart : t.place ≠ r.target.place
  held : ∃ bytes mode, draft.disk.entryAt? t.place = some (.file bytes mode)
  leads : draft.disk.place r.target = .ok r.target.place
  noDirectory : draft.disk.entryAt? r.target.place ≠ some .directory

/-- A file that is put where no directory was changes no way. -/
theorem place_put_file {k : Place} (hk : d.entryAt? k ≠ some .directory) (bytes : ByteArray)
    (mode : Nat) {p : Path} {j : Place} (hp : d.place p = .ok j) :
    (d.put k (.file bytes mode)).place p = .ok j := by
  refine Disk.place_mono (fun i hi => ?_) hp
  have hne : i ≠ k := fun heq => hk (heq ▸ hi)
  rw [Disk.entryAt?_put_of_ne (Disk.ne_nil_of_entryAt?_ne hk) _ hne]
  exact hi

theorem Awaited.change {t : Temporary} (h : Awaited r draft t) (change : ByteArray → Nat → Entry)
    (hchange : ∀ bytes mode, ∃ content m, change bytes mode = .file content m) :
    Awaited r (changeTemporary draft change) t := by
  obtain ⟨bytes, mode, hheld⟩ := h.held
  obtain ⟨content, m, hfile⟩ := hchange bytes mode
  have hfree : draft.disk.entryAt? t.place ≠ some .directory := by
    rw [hheld]
    exact nofun
  have hplace := Disk.ne_nil_of_file hheld
  rw [changeTemporary_eq h.temporary hheld, hfile]
  -- The temporary file is no directory, so no way leads through it.
  refine ⟨h.temporary, h.apart, ⟨content, m, Disk.entryAt?_put_self hplace _⟩,
    place_put_file hfree _ _ h.leads, ?_⟩
  rw [Disk.entryAt?_put_of_ne hplace _ h.apart.symm]
  exact h.noDirectory

/-- Once the directories are there, a temporary file is made. -/
theorem exists_create (hnull : r.target.hasNull = false) (hparent : d.Leads r.target.parent)
    (hstatus : ∃ e, d.status r.target = .ok e ∧ e ≠ some .directory)
    (hroom : ∀ n ≤ d.entries.length, (temporaryName r.target n).utf8ByteSize ≤ Disk.nameLimit ∧
      (temporaryPath r.target n).text.utf8ByteSize ≤ Disk.pathLimit) :
    ∃ draft t, r.create { disk := d } = .ok draft ∧ Awaited r draft t := by
  -- Every candidate stands in the directory of the target, and its name is short enough.
  have hcandidates : ∀ n ≤ d.entries.length,
      d.place (temporaryPath r.target n) = .ok (temporaryPath r.target n).place := by
    intro n hn
    have hsame : (temporaryPath r.target n).parent = r.target.parent := by
      rw [Path.parent, parts_temporaryPath, List.dropLast_concat]
      rfl
    have hleads : d.Leads (temporaryPath r.target n).parent := hsame ▸ hparent
    obtain ⟨hshort, hpath⟩ := hroom n hn
    rw [Disk.place_of_leads hleads, Path.name_of_parts_eq_append (parts_temporaryPath r.target n)]
    exact if_neg (by omega)
  have hplace := hcandidates _ (freeNumber_le d r.target)
  -- There are more candidates than entries, so the number that is found is free.
  have hnone := (isFree_eq_true hplace).1 (isFree_freeNumber hcandidates)
  have hfree : d.entryAt? (temporaryPath r.target (freeNumber d r.target)).place ≠
      some .directory := by
    rw [hnone]
    exact (Option.some_ne_none _).symm
  have hne := Disk.ne_nil_of_missing hnone
  have hapart := place_temporaryPath_ne r.target (freeNumber d r.target)
  -- The target is where it was, and the new file is not in its way.
  obtain ⟨e, he, hfile⟩ := hstatus
  obtain ⟨htarget, hentry⟩ := Disk.status_of_leads hparent he
  refine ⟨_, _, create_eq_ok.2 ⟨hasNull_temporaryPath hnull _, _, hplace, hnone, rfl⟩, rfl,
    hapart, ⟨.empty, privateMode, Disk.entryAt?_put_self hne _⟩,
    place_put_file hfree _ _ htarget, ?_⟩
  rw [Disk.entryAt?_put_of_ne hne _ hapart.symm, hentry]
  exact hfile

/-- The mode of the target can be read while a draft is under way. -/
theorem exists_targetMode {t : Temporary} (h : Awaited r draft t) :
    ∃ mode, r.targetMode draft.disk = .ok mode := by
  rw [targetMode, h.leads]
  dsimp only
  split
  · exact ⟨_, rfl⟩
  · exact ⟨_, rfl⟩
  · exact ⟨_, rfl⟩

/-- The exchange succeeds, unless the target is named as a step up. -/
theorem exists_exchange {t : Temporary} (h : Awaited r draft t) (hup : r.target.name ≠ "..") :
    ∃ next, r.exchange draft = .ok next := by
  obtain ⟨bytes, mode, hheld⟩ := h.held
  exact ⟨_, exchange_eq_ok.2 ⟨h.leads, hup, h.noDirectory, t, _, h.temporary, hheld, rfl⟩⟩

/-- After a step that ends well, it is left to the others whether a replacement fails. -/
theorem failure_performAll {step : WriteStep} {next : Draft}
    (h : r.perform draft step = ⟨next, none⟩) (rest : List WriteStep) :
    (r.performAll .never draft (step :: rest)).failure =
      (r.performAll .never next rest).failure := by
  have hattempt : r.attempt .never draft step = ⟨next, none⟩ := h
  rw [performAll, hattempt]
  rfl

/-- A target that can be replaced is replaced, when nothing interrupts. -/
theorem course_completes (h : d.Replaceable r.target) : (r.course .never d).failure = none := by
  have hmade := Disk.makeDirectories_spec d r.target.parent
  have hmake : r.perform { disk := d } .makeDirectories =
      ⟨{ disk := (d.makeDirectories r.target.parent).disk }, none⟩ := by
    show withDirectories _ _ = _
    rw [withDirectories, h.parents]
    rfl
  -- Each step hands on a draft that awaits the next one.
  obtain ⟨draft, t, hcreate, hawaited⟩ :=
    exists_create h.noNull (hmade.2 h.parents) h.noDirectory h.room
  have hcreate' : r.perform { disk := (d.makeDirectories r.target.parent).disk } .createTemporary =
      ⟨draft, none⟩ := by
    show Attempt.of _ _ = _
    rw [hcreate]
    rfl
  have hfilled : Awaited r (fill draft r.bytes) t := hawaited.change _ fun _ mode => ⟨_, mode, rfl⟩
  obtain ⟨mode, hmode⟩ := exists_targetMode hfilled
  have hread : r.perform (fill draft r.bytes) .readMode =
      ⟨{ fill draft r.bytes with mode }, none⟩ := by
    show Attempt.of _ _ = _
    rw [hmode]
    rfl
  have hawaited' : Awaited r { fill draft r.bytes with mode } t :=
    ⟨hfilled.temporary, hfilled.apart, hfilled.held, hfilled.leads, hfilled.noDirectory⟩
  have hlast := hawaited'.change (fun bytes _ => .file bytes mode) fun bytes _ => ⟨bytes, _, rfl⟩
  obtain ⟨next, hnext⟩ := exists_exchange hlast h.name_ne_up
  have hreplace : r.perform (changeTemporary { fill draft r.bytes with mode }
      fun bytes _ => .file bytes mode) .replace = ⟨next, none⟩ := by
    show Attempt.of _ _ = _
    rw [hnext]
    rfl
  -- The other steps cannot fail without an interruption.
  have hwrite : r.perform draft .writeText = ⟨draft, none⟩ := rfl
  have hflush : r.perform draft .flush = ⟨fill draft r.bytes, none⟩ := rfl
  have hsync : r.perform (fill draft r.bytes) .sync = ⟨fill draft r.bytes, none⟩ := rfl
  have hchange : r.perform { fill draft r.bytes with mode } .changeMode =
      ⟨changeTemporary { fill draft r.bytes with mode } fun bytes _ => .file bytes mode, none⟩ :=
    rfl
  rw [course, WriteStep.all, failure_performAll hmake, failure_performAll hcreate',
    failure_performAll hwrite, failure_performAll hflush, failure_performAll hsync,
    failure_performAll hread, failure_performAll hchange, failure_performAll hreplace]
  rfl

end Replacement

namespace Disk

variable {d : Disk} {target p : Path} {bytes : ByteArray}

/-! ### Reading the target -/

/-- The bytes of a file are read where its path leads to one. -/
theorem readBytes_eq_ok :
    d.readBytes p = .ok bytes ↔
      ∃ k mode, d.place p = .ok k ∧ d.entryAt? k = some (.file bytes mode) := by
  rw [readBytes, bind_eq_ok]
  constructor
  · rintro ⟨k, hk, h⟩
    split at h
    · next b mode hentry =>
      cases h
      exact ⟨k, mode, locate_eq_ok.1 hk, hentry⟩
    · cases h
    · cases h
  · rintro ⟨k, mode, hk, hentry⟩
    refine ⟨k, locate_eq_ok.2 hk, ?_⟩
    rw [hentry]
    rfl

theorem readText_of_noNull (h : p.hasNull = false) :
    d.readText p = match d.readBytes p with
      | .ok bytes => textOf bytes
      | .error f => .error (.system f) := by
  rw [readText, Failure.checkName, h]
  cases d.readBytes p with
  | ok bytes => rfl
  | error f => rfl

theorem readBytes_of_missing
    (h : d.place p = .error .missing ∨ ∃ k, d.place p = .ok k ∧ d.entryAt? k = none) :
    d.readBytes p = .error ⟨.missing, p.text, none⟩ := by
  rw [readBytes, locate]
  rcases h with h | ⟨k, h, hnone⟩
  · rw [h]
    rfl
  · rw [h]
    dsimp only [bind, Except.bind, Except.mapError]
    rw [hnone]
    rfl

theorem readExisting_of_bytes (hnull : p.hasNull = false) (h : d.readBytes p = .ok bytes) :
    d.readExisting p = textOf bytes := by
  rw [readExisting, readText_of_noNull hnull, h]
  dsimp only
  rw [textOf]
  cases Utf8.decode bytes with
  | ok s => rfl
  | error f => rfl

theorem readExisting_of_missing (hnull : p.hasNull = false)
    (h : d.readBytes p = .error ⟨.missing, p.text, none⟩) : d.readExisting p = .ok "" := by
  rw [readExisting, readText_of_noNull hnull, h]

/-- A target that can be replaced holds bytes or is missing. -/
theorem Replaceable.readExisting (h : d.Replaceable target) :
    (∃ bytes, d.readBytes target = .ok bytes ∧ d.readExisting target = textOf bytes) ∨
    (∀ bytes, d.readBytes target ≠ .ok bytes) ∧ d.readExisting target = .ok "" := by
  have hmade := makeDirectories_spec d target.parent
  have hmissing : d.readBytes target = .error ⟨.missing, target.text, none⟩ →
      (∀ bytes, d.readBytes target ≠ .ok bytes) ∧ d.readExisting target = .ok "" := by
    intro hbytes
    refine ⟨fun bytes hok => ?_, readExisting_of_missing h.noNull hbytes⟩
    rw [hbytes] at hok
    cases hok
  -- Once the directories are there, the target leads to its place.
  obtain ⟨e, hstatus, hfile⟩ := h.noDirectory
  obtain ⟨hplace, hentry⟩ := status_of_leads (hmade.2 h.parents) hstatus
  cases hd : d.place target with
  | error cause =>
    -- A path that only leads there with new directories was missing, and so was the target.
    obtain rfl := hmade.1.missing_of_place hd hplace
    exact .inr (hmissing (readBytes_of_missing (.inl hd)))
  | ok k =>
    obtain rfl := place_eq hd
    cases hthere : d.entryAt? target.place with
    | none => exact .inr (hmissing (readBytes_of_missing (.inr ⟨_, hd, hthere⟩)))
    | some e' =>
      cases e' with
      | directory => exact absurd (hentry ▸ (hmade.1 _).directory hthere) hfile
      | file bytes mode =>
        have hbytes : d.readBytes target = .ok bytes := readBytes_eq_ok.2 ⟨_, mode, hd, hthere⟩
        exact .inl ⟨bytes, hbytes, readExisting_of_bytes h.noNull hbytes⟩

/-- A file that was replaced without a failure holds the new bytes. -/
theorem readBytes_writeUnder {faults : Interruptions} {mask : Nat} {content : String}
    (h : (writeUnder faults d mask target content).fault = none) :
    (writeUnder faults d mask target content).disk.readBytes target = .ok content.toUTF8 := by
  have hreplaced := (writeCourse_sound d mask target content faults).replaced h
  obtain hheld := file?_eq_some.1 hreplaced.held
  exact readBytes_eq_ok.2 ⟨_, _, hreplaced.leads, hheld⟩

/-- A replacement that fails, or whose target is another, leaves a file as it is. -/
theorem file?_writeUnder {faults : Interruptions} {mask : Nat} {content : String} {k : Place}
    (h : (writeUnder faults d mask target content).fault ≠ none ∨ k ≠ target.place) :
    (writeUnder faults d mask target content).disk.file? k = d.file? k := by
  have hsound := writeCourse_sound d mask target content faults
  cases hfault : (writeUnder faults d mask target content).fault with
  | some f => exact (hsound.failed f hfault k).file?_eq
  | none =>
    have hk := h.resolve_left (not_not_intro hfault)
    exact ((hsound.replaced hfault).kept k hk).file?_eq

/-- A target that can be replaced is replaced. -/
theorem Replaceable.writes (h : d.Replaceable target) (mask : Nat) {content : String}
    (hcontent : content ≠ "") : (writeUnder .never d mask target content).fault = none := by
  have hcourse : d.writeCourse mask target content .never =
      Replacement.course { target, mask, bytes := content.toUTF8 } .never d := by
    rw [writeCourse, if_neg hcontent, Path.hasNull_parent h.noNull]
    rfl
  show (d.writeCourse mask target content .never).failure = none
  rw [hcourse]
  exact Replacement.course_completes h

/-! ### Atomic replacement -/

/-- The mode of the file at a place, or that of a new file where there is none. -/
def modeOrNew (d : Disk) (mask : Nat) (k : Place) : Nat :=
  match d.file? k with
  | some (_, mode) => mode
  | none => Replacement.newMode mask

/-- The mode that a replacement gives to the file at a place: the mode of the file, or that of a new
file where there is none, or where the system says that there is none. -/
def modeGiven (faults : Interruptions) (d : Disk) (mask : Nat) (k : Place) : Nat :=
  if Replacement.toldMissing faults then Replacement.newMode mask else d.modeOrNew mask k

/-- **Atomic replacement.** The target is the file at the place that its path leads to once its
directories are there. Whichever steps are interrupted, and wherever in their midst, every disk that
a replacement goes through has the target as it was, or the new content with the final mode. A
failure leaves every place as it was, but for directories where there was nothing. Without a failure
the target holds the new content and every other place is as it was, but for directories. The final
mode is the one of the target, or that of a new file where there is none or the system says so.
There is no failure if nothing is interrupted and the target can be replaced. -/
theorem writeUnder_atomic (faults : Interruptions) (d : Disk) (mask : Nat) (target : Path)
    (content : String) :
    let c := d.writeCourse mask target content faults
    let w := writeUnder faults d mask target content
    let mode := modeGiven faults d mask target.place
    (∀ s ∈ c.disks, s.file? target.place = d.file? target.place ∨
      s.file? target.place = some (content.toUTF8, mode)) ∧
    (∀ f, w.fault = some f → Grown d w.disk) ∧
    (w.fault = none → w.disk.place target = .ok target.place ∧
      w.disk.file? target.place = some (content.toUTF8, mode) ∧
      ∀ k, k ≠ target.place → Kept d w.disk k) ∧
    (d.Replaceable target → content ≠ "" → (∀ step, faults step = none) → w.fault = none) := by
  intro c w mode
  have hsound := writeCourse_sound d mask target content faults
  refine ⟨hsound.seen, hsound.failed, ?_, ?_⟩
  · intro hnone
    have hreplaced := hsound.replaced hnone
    exact ⟨hreplaced.leads, hreplaced.held, hreplaced.kept⟩
  · intro hreplaceable hcontent hnever
    obtain rfl : faults = .never := funext hnever
    exact hreplaceable.writes mask hcontent

/-- A directory with one file. -/
def notes : Disk :=
  ⟨[(["home"], .directory), (["home", "notes"], .file "old".toUTF8 0o640)]⟩

def notesPath : Path := Path.ofRoot ["home", "notes"]

/-- The last step is refused. -/
def lastDenied : Interruptions
  | .replace => some { fault := ⟨.denied, "notes", none⟩ }
  | _ => none

theorem replaceable_notes : notes.Replaceable notesPath :=
  replaceable_of_length 2 rfl rfl rfl (by decide) rfl (by decide)

theorem writeUnder_atomic_notes :
    (∃ f, (writeUnder lastDenied notes 0o022 notesPath "new").fault = some f) ∧
    notes.Grown (writeUnder lastDenied notes 0o022 notesPath "new").disk ∧
    (writeUnder .never notes 0o022 notesPath "new").fault = none ∧
    (writeUnder .never notes 0o022 notesPath "new").disk.file? notesPath.place =
      some ("new".toUTF8, 0o640) := by
  have hrefused : ∃ f, (writeUnder lastDenied notes 0o022 notesPath "new").fault = some f :=
    ⟨_, rfl⟩
  obtain ⟨-, hfailed, -⟩ := writeUnder_atomic lastDenied notes 0o022 notesPath "new"
  obtain ⟨-, -, hdone, hcompletes⟩ := writeUnder_atomic .never notes 0o022 notesPath "new"
  have hwritten : (writeUnder .never notes 0o022 notesPath "new").fault = none :=
    hcompletes replaceable_notes (by decide) fun _ => rfl
  obtain ⟨-, hheld, -⟩ := hdone hwritten
  obtain ⟨f, hf⟩ := hrefused
  exact ⟨⟨f, hf⟩, hfailed f hf, hwritten, hheld⟩

/-- The same file by a path that steps up out of a directory that is missing. -/
def asidePath : Path := Path.ofRoot ["home", "drafts", "..", "notes"]

/-- The system says that there is no target when it is asked for the mode. -/
def modeDenied : Interruptions
  | .readMode => some { fault := ⟨.missing, "notes", none⟩ }
  | _ => none

/-- A mode is kept that nobody could see, and one is lost that was there: a path is missing until
its directories are made and then leads to an old file, and a target that is said to be missing
counts as a new one. -/
theorem mode_not_kept :
    (notes.readBytes asidePath = .error ⟨.missing, asidePath.text, none⟩ ∧
      (∃ s ∈ (notes.writeCourse 0o022 asidePath "new" .never).disks,
        s.readBytes asidePath = .ok "old".toUTF8) ∧
      (writeUnder .never notes 0o022 asidePath "new").fault = none ∧
      (writeUnder .never notes 0o022 asidePath "new").disk.file? asidePath.place =
        some ("new".toUTF8, 0o640)) ∧
    notes.file? notesPath.place = some ("old".toUTF8, 0o640) ∧
      (writeUnder modeDenied notes 0o022 notesPath "new").fault = none ∧
      (writeUnder modeDenied notes 0o022 notesPath "new").disk.file? notesPath.place =
        some ("new".toUTF8, 0o644) ∧
    Replacement.newMode 0o022 = 0o644 := by
  have hmade : ∃ s ∈ (notes.writeCourse 0o022 asidePath "new" .never).disks,
      s.readBytes asidePath = .ok "old".toUTF8 :=
    ⟨_, .tail _ (.head _), rfl⟩
  exact ⟨⟨rfl, hmade, rfl, rfl⟩, rfl, rfl, rfl, rfl⟩

end Disk

end BoundaryTypes
