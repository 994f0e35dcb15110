/-
  `LogFile` — opening a log file and writing to it.

  A log file that is opened changes nothing else on the disk than the directories that lead to it,
  and if there is a directory already, nothing but itself (`LogFile.opened`). Writing changes
  nothing but the log file (`LogFile.aside_append`), and after some records it holds what it held
  before, and then a line for each of them (`LogFile.taken`).
-/
import BoundaryTypes.Logger
import BoundaryTypes.Proofs.Disk.Alike

namespace BoundaryTypes

open Outcome

/-! ### Disks that are the same but for one file -/

/-- Two disks that are the same, but for a place if one is given. -/
def Disk.Aside (k? : Option Place) (d d' : Disk) : Prop :=
  match k? with
  | none => d' = d
  | some k => Disk.Alike (· = k) False d d'

namespace Disk.Aside

variable {k? : Option Place} {k j : Place} {d d' s : Disk}

theorem refl (k? : Option Place) (d : Disk) : Aside k? d d := by
  cases k? with
  | none => rfl
  | some k => exact Alike.refl _ d

theorem trans (h : Aside k? d d') (h' : Aside k? d' s) : Aside k? d s := by
  cases k? with
  | none => exact Eq.trans h' h
  | some k => exact ⟨fun j hj => (h'.same j hj).trans (h.same j hj), False.elim⟩

theorem entryAt?_eq (h : Aside k? d d') (hj : k? ≠ some j) : d'.entryAt? j = d.entryAt? j := by
  cases k? with
  | none => exact congrArg (fun d : Disk => d.entryAt? j) h
  | some k => exact h.same j fun heq => hj (congrArg some heq.symm)

theorem put (hk : k ≠ []) (e : Entry) : Aside (some k) d (d.put k e) :=
  ⟨fun _ hj => entryAt?_put_of_ne hk e hj, False.elim⟩

end Disk.Aside

/-- A directory that is there is not made again. -/
theorem Disk.ensureDirectories_of_isDirectory {d : Disk} {p : Path}
    (h : d.isDirectory p = .ok true) : d.ensureDirectories p = .ok d := by
  have hexists : ∃ f, d.makeDirectory p = .error f ∧ f.cause ≠ .missing := by
    obtain ⟨k, hplace, hentry⟩ := isDirectory_eq_true.1 h
    refine ⟨⟨.exists, p.text, none⟩, ?_, nofun⟩
    rw [makeDirectory, locate_eq_ok.2 hplace, ok_bind, hentry]
    rfl
  obtain ⟨f, hmake, hcause⟩ := hexists
  have hensure : d.ensureDirectory p = .ok d := by
    rw [ensureDirectory, hmake]
    dsimp only
    rw [if_neg hcause, h]
  -- No fault but a missing directory leads to those above it.
  have hmade : d.makeFirst p p.parts.length = .of d (.ok d) := by
    cases hlength : p.parts.length with
    | zero =>
      have hfirst := p.first_length
      rw [hlength] at hfirst
      rw [makeFirst, hfirst, hensure]
    | succ n =>
      have hfirst := p.first_length
      rw [hlength] at hfirst
      rw [makeFirst, hfirst, hmake]
      dsimp only
      rw [if_neg hcause, hensure]
  rw [ensureDirectories, makeDirectories, hmade]
  rfl

/-! ### Records -/

/-- Records are written one after another. -/
theorem fileLog_append (time : String) (es es' : List Event) :
    fileLog time (es ++ es') = fileLog time es ++ fileLog time es' := by
  rw [fileLog, List.map_append, String.join_append]
  rfl

theorem fileLog_singleton (time : String) (e : Event) : fileLog time [e] = e.fileLine time := by
  rw [fileLog, List.map_singleton, String.join_cons, String.join_nil, String.append_empty]

namespace LogFile

variable {f : LogFile} {d d' : Disk}

/-- A log file that has taken some records. -/
def taken (f : LogFile) (time : String) (records : List Event) : LogFile :=
  { f with bytes := f.bytes ++ (fileLog time records).toUTF8 }

/-- A line is appended to what the log file holds, if it is still there. -/
theorem append_eq (h : d.entryAt? f.place = some f.entry) (text : String) :
    f.append d text = ({ f with bytes := f.bytes ++ text.toUTF8 },
      d.put f.place (.file (f.bytes ++ text.toUTF8) f.mode)) := by
  rw [append, if_pos h]
  rfl

theorem place_append (f : LogFile) (d : Disk) (text : String) :
    (f.append d text).1.place = f.place := by
  unfold append
  split <;> rfl

theorem ne_nil_of_entry (h : d.entryAt? f.place = some f.entry) : f.place ≠ [] :=
  Disk.ne_nil_of_entryAt?_ne (by rw [h]; rintro ⟨⟩)

/-- Writing at the end of a log file changes nothing else. -/
theorem aside_append (f : LogFile) (d : Disk) (text : String) :
    Disk.Aside (some f.place) d (f.append d text).2 := by
  unfold append
  split
  · next h => exact .put (ne_nil_of_entry h) _
  · exact .refl _ d

theorem taken_nil (f : LogFile) (time : String) : f.taken time [] = f := by
  have hnone : (fileLog time []).toUTF8 = .empty := rfl
  rw [taken, hnone, ByteArray.append_empty]

/-- The log file takes one more record by one more line. -/
theorem taken_append (f : LogFile) (time : String) (records : List Event) (e : Event) :
    f.taken time (records ++ [e]) =
      { f.taken time records with
        bytes := (f.taken time records).bytes ++ (e.fileLine time).toUTF8 } := by
  have hbytes : (fileLog time records ++ e.fileLine time).toUTF8 =
      (fileLog time records).toUTF8 ++ (e.fileLine time).toUTF8 := ByteArray.ext rfl
  rw [taken, taken, fileLog_append, fileLog_singleton, hbytes, ByteArray.append_assoc]

/-! ### Opening -/

variable {host : Host} {name : String}

/-- A disk on which a log file was opened. -/
structure Opened (d d' : Disk) (f : LogFile) : Prop where
  entry : d'.entryAt? f.place = some f.entry
  /-- The file holds what it held before. -/
  before : d.file? f.place = some (f.bytes, f.mode) ∨ d.file? f.place = none ∧ f.bytes = .empty
  others : ∀ k, k ≠ f.place → Disk.Kept d d' k

/-- The directories of a log file are made, and then it is there already, or made as well. -/
theorem exists_of_openIn (h : openIn host d name = .ok (d', f)) :
    ∃ s, d.ensureDirectories (host.directory.joinText name).parent = .ok s ∧
      (s.entryAt? f.place = some f.entry ∧ d' = s ∨
        s.entryAt? f.place = none ∧ f.bytes = .empty ∧ d' = s.put f.place f.entry) := by
  rw [openIn] at h
  obtain ⟨-, -, h⟩ := bind_eq_ok.1 h
  obtain ⟨s, hs, h⟩ := bind_eq_ok.1 h
  obtain ⟨k, -, h⟩ := bind_eq_ok.1 h
  refine ⟨s, ?_, ?_⟩
  · cases hmade : d.ensureDirectories (host.directory.joinText name).parent with
    | ok made =>
      rw [hmade] at hs
      cases hs
      rfl
    | error e =>
      rw [hmade] at hs
      cases hs
  · -- A directory cannot be opened; a file is taken as it is; otherwise an empty one is made.
    split at h
    · cases h
    · next hentry =>
      cases h
      exact .inl ⟨hentry, rfl⟩
    · next hentry =>
      cases h
      exact .inr ⟨hentry, rfl, rfl⟩

/-- Where a log file cannot be opened, no more than directories are made. -/
theorem grown_refused (host : Host) (d : Disk) (name : String) : d.Grown (refused host d name) := by
  unfold refused
  dsimp only
  split
  · exact .refl d
  · exact (Disk.makeDirectories_spec d _).1

theorem opened (h : openIn host d name = .ok (d', f)) : Opened d d' f := by
  obtain ⟨s, hs, hcases⟩ := exists_of_openIn h
  -- Files stay while directories are made.
  have hgrown : d.Grown s := by
    have hspec := Disk.makeDirectories_spec d (host.directory.joinText name).parent
    unfold Disk.ensureDirectories at hs
    dsimp only at hs
    split at hs
    · cases hs
      exact hspec.1
    · cases hs
  rcases hcases with ⟨hentry, rfl⟩ | ⟨hentry, hempty, rfl⟩
  · have hfile := (hgrown f.place).file?_eq.symm.trans (Disk.file?_eq_some.2 hentry)
    exact ⟨hentry, .inl hfile, fun k _ => hgrown k⟩
  · have hplace := Disk.ne_nil_of_missing hentry
    have hnone : s.file? f.place = none := by rw [Disk.file?, hentry]
    refine ⟨Disk.entryAt?_put_self hplace _, .inr ⟨(hgrown _).file?_eq.symm.trans hnone, hempty⟩,
      fun k hk => (hgrown k).trans (.inl (Disk.entryAt?_put_of_ne hplace _ hk))⟩

/-- In a directory that is there, nothing changes but the log file. -/
theorem aside_of_openIn (h : openIn host d name = .ok (d', f))
    (hparent : d.isDirectory (host.directory.joinText name).parent = .ok true) :
    Disk.Aside (some f.place) d d' := by
  obtain ⟨s, hs, hcases⟩ := exists_of_openIn h
  rw [Disk.ensureDirectories_of_isDirectory hparent] at hs
  cases hs
  rcases hcases with ⟨-, rfl⟩ | ⟨hentry, -, rfl⟩
  · exact .refl _ _
  · exact .put (Disk.ne_nil_of_missing hentry) _

end LogFile

end BoundaryTypes
