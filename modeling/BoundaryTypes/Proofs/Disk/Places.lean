/-
  `Places` — where paths lead, and how a disk grows.

  There are no links, so the place that a path leads to is known from its text alone
  (`Path.place`); the disk only says whether the path leads anywhere. A path needs
  directories on its way and nothing else, so it leads on wherever directories stay.
  Making directories changes nothing that a disk holds (`Grown`): what is new are
  directories, where there was nothing.
-/
import BoundaryTypes.Disk.Replace
import BoundaryTypes.Proofs.Outcome

namespace BoundaryTypes

open Outcome

namespace Path

/-- The place that a path leads to, if it leads anywhere. -/
def place (p : Path) : Place := collapse p.parts

theorem name_of_parts_eq_append {p : Path} {parts : List String} {last : String}
    (h : p.parts = parts ++ [last]) : p.name = last := by
  rw [name, h, List.getLast?_concat]
  rfl

/-- A path has no null character when none of its parts has one. -/
theorem hasNull_eq_false {p : Path} :
    p.hasNull = false ↔ ∀ part ∈ p.parts, '\x00' ∉ part.toList := by
  simp only [hasNull, List.any_eq_false, List.contains_iff_mem]

theorem hasNull_parent {p : Path} (h : p.hasNull = false) : p.parent.hasNull = false := by
  rw [hasNull_eq_false] at h ⊢
  exact fun part hpart => h part (List.dropLast_subset _ hpart)

theorem place_of_parts_eq_nil {p : Path} (h : p.parts = []) : p.place = [] := by
  rw [place, h]
  rfl

/-- The last part of a path leads one place up or down. -/
theorem place_of_parts_eq_append {p : Path} {parts : List String} {name : String}
    (h : p.parts = parts ++ [name]) :
    p.place = if name = ".." then (collapse parts).dropLast else collapse parts ++ [name] := by
  rw [place, h, collapse, collapse, List.foldl_append, List.foldl_cons, List.foldl_nil]

/-- A path that ends in a step up leads to the place above that of its parent. -/
theorem place_of_name_eq_up {p : Path} (h : p.name = "..") :
    p.place = p.parent.place.dropLast := by
  rcases List.eq_nil_or_concat p.parts with hnil | ⟨parts, last, hparts⟩
  · rw [place, place, parent, hnil]
    rfl
  · rw [List.concat_eq_append] at hparts
    have hlast : last = ".." := (name_of_parts_eq_append hparts).symm.trans h
    rw [place_of_parts_eq_append hparts, if_pos hlast, place, parent, hparts, List.dropLast_concat]

end Path

namespace Disk

variable {d s t : Disk} {p : Path} {k j : Place}

/-! ### Ways -/

theorem ne_nil_of_entryAt?_ne (h : d.entryAt? k ≠ some .directory) : k ≠ [] := by
  rintro rfl
  exact h rfl

theorem ne_nil_of_missing (h : d.entryAt? k = none) : k ≠ [] :=
  ne_nil_of_entryAt?_ne (by rw [h]; exact nofun)

theorem ne_nil_of_file {bytes : ByteArray} {mode : Nat}
    (h : d.entryAt? k = some (.file bytes mode)) : k ≠ [] :=
  ne_nil_of_entryAt?_ne (by rw [h]; exact nofun)

theorem entryAt?_put_self (h : k ≠ []) (e : Entry) : (d.put k e).entryAt? k = some e := by
  rw [entryAt?_put d k k e h, if_pos rfl]

theorem entryAt?_put_of_ne (h : k ≠ []) (e : Entry) (hj : j ≠ k) :
    (d.put k e).entryAt? j = d.entryAt? j := by
  rw [entryAt?_put d k j e h, if_neg hj]

theorem mem_entries_of_entryAt? {e : Entry} (hk : k ≠ []) (h : d.entryAt? k = some e) :
    k ∈ d.entries.map (·.1) := by
  rw [entryAt?, if_neg hk, Option.map_eq_some_iff] at h
  obtain ⟨x, hx, -⟩ := h
  have hkey : x.1 = k := by simpa using List.find?_some hx
  exact List.mem_map.2 ⟨x, List.mem_of_find?_eq_some hx, hkey⟩

/-- A step can be taken from a directory only, and leads down by its name or up. -/
theorem step_eq_ok {name : String} (h : d.step k name = .ok j) :
    d.entryAt? k = some .directory ∧
      j = (if name = ".." then k.dropLast else k ++ [name]) := by
  unfold step at h
  split at h
  · cases h
  · cases h
  · next hk =>
    refine ⟨hk, ?_⟩
    split at h
    · next hup => rw [if_pos hup]; cases h; rfl
    · next hup =>
      rw [if_neg hup]
      split at h
      · cases h
      · cases h; rfl

/-- A step that is taken, or that is refused for another reason than a missing place, is the same on
every disk with the same entry there. -/
theorem step_congr {name : String} (h : s.entryAt? k = d.entryAt? k) :
    s.step k name = d.step k name := by
  unfold step
  rw [h]

/-- Where a walk ends depends on its parts only, not on the disk on which it succeeds. -/
theorem walk_eq_ok {parts : List String} (h : parts.foldlM d.step k = .ok j) :
    j = parts.foldl (fun acc part => if part = ".." then acc.dropLast else acc ++ [part]) k := by
  induction parts generalizing k with
  | nil =>
    cases h
    rfl
  | cons name rest ih =>
    rw [List.foldlM_cons, bind_eq_ok] at h
    obtain ⟨i, hstep, h⟩ := h
    rw [List.foldl_cons, ← (step_eq_ok hstep).2]
    exact ih h

/-- On the way to a place lie directories only. -/
theorem directory_of_walk {parts : List String}
    (hk : ∀ i, i <+: k → i ≠ k → d.entryAt? i = some .directory)
    (h : parts.foldlM d.step k = .ok j) :
    ∀ i, i <+: j → i ≠ j → d.entryAt? i = some .directory := by
  -- The directories above the place that was reached are the invariant of the walk.
  induction parts generalizing k with
  | nil =>
    cases h
    exact hk
  | cons name rest ih =>
    rw [List.foldlM_cons, bind_eq_ok] at h
    obtain ⟨m, hstep, h⟩ := h
    obtain ⟨hdirectory, rfl⟩ := step_eq_ok hstep
    have hway : ∀ i, i <+: k → d.entryAt? i = some .directory := by
      intro i hi
      by_cases heq : i = k
      · exact heq ▸ hdirectory
      · exact hk i hi heq
    refine ih (fun i hi hne => ?_) h
    -- A step up stays on the way that is known; a step down adds the place that it left.
    split at hi
    · exact hway i (hi.trans (List.dropLast_prefix k))
    · next hdown =>
      rw [if_neg hdown] at hne
      exact hway i ((List.prefix_concat_iff.1 hi).resolve_left hne)

/-- A path that leads anywhere leads to its place. -/
theorem place_eq (h : d.place p = .ok k) : k = p.place := by
  unfold place at h
  split at h
  · cases h
  · exact walk_eq_ok h

theorem status_of_place (h : d.place p = .ok k) : d.status p = .ok (d.entryAt? k) := by
  rw [status, h]

/-- A way stays where its directories stay. -/
theorem walk_mono (h : ∀ k, d.entryAt? k = some .directory → s.entryAt? k = some .directory)
    {parts : List String} (hd : parts.foldlM d.step k = .ok j) :
    parts.foldlM s.step k = .ok j := by
  induction parts generalizing k with
  | nil => exact hd
  | cons name rest ih =>
    rw [List.foldlM_cons, bind_eq_ok] at hd ⊢
    obtain ⟨i, hstep, hd⟩ := hd
    -- The disk was asked at directories alone, and they are the same.
    have hk : d.entryAt? k = some .directory := (step_eq_ok hstep).1
    exact ⟨i, (step_congr ((h k hk).trans hk.symm)).trans hstep, ih hd⟩

/-- A path leads to the same place on a disk with more directories. -/
theorem place_mono (h : ∀ k, d.entryAt? k = some .directory → s.entryAt? k = some .directory)
    (hd : d.place p = .ok k) : s.place p = .ok k := by
  unfold place at hd ⊢
  split at hd
  · cases hd
  · next hlong =>
    rw [if_neg hlong]
    exact walk_mono h hd

theorem step_of_directory (h : d.entryAt? k = some .directory) (name : String) :
    d.step k name =
      if name = ".." then .ok k.dropLast
      else if nameLimit < name.utf8ByteSize then .error .nameTooLong else .ok (k ++ [name]) := by
  unfold step
  rw [h]

/-- A path leads to a directory. -/
def Leads (d : Disk) (p : Path) : Prop :=
  ∃ k, d.place p = .ok k ∧ d.entryAt? k = some .directory

/-- Above a directory there is a directory. -/
theorem Leads.above (h : d.Leads p) : d.entryAt? p.place.dropLast = some .directory := by
  obtain ⟨k, hk, hdirectory⟩ := h
  obtain rfl := place_eq hk
  unfold place at hk
  split at hk
  · cases hk
  · by_cases hroot : p.place = []
    · rw [hroot] at hdirectory ⊢
      exact hdirectory
    · -- A walk begins at the root, which has nothing above it.
      have hnone : ∀ i : Place, i <+: [] → i ≠ [] → d.entryAt? i = some .directory :=
        fun i hi hne => absurd (List.prefix_nil.1 hi) hne
      refine directory_of_walk hnone hk _ (List.dropLast_prefix _) fun heq => ?_
      have hlength := congrArg List.length heq
      have hpositive := List.length_pos_iff.2 hroot
      rw [List.length_dropLast] at hlength
      omega

/-- Below a directory, nothing but its length keeps a path from leading to its place. -/
theorem place_of_leads (h : d.Leads p.parent) :
    d.place p =
      if pathLimit < p.text.utf8ByteSize ∨ p.name ≠ ".." ∧ nameLimit < p.name.utf8ByteSize then
        .error .nameTooLong
      else .ok p.place := by
  obtain ⟨k, hk, hdirectory⟩ := h
  have hwalk : p.parts.dropLast.foldlM d.step [] = .ok k := by
    unfold place at hk
    split at hk
    · cases hk
    · exact hk
  unfold place
  by_cases hlong : pathLimit < p.text.utf8ByteSize
  · rw [if_pos hlong, if_pos (.inl hlong)]
  · rw [if_neg hlong]
    -- All parts but the last lead to the directory, so the last one decides.
    rcases List.eq_nil_or_concat p.parts with hnil | ⟨parts, name, hparts⟩
    · have hname : p.name = "" := by
        rw [Path.name, hnil]
        rfl
      have hshort : ¬ nameLimit < p.name.utf8ByteSize := by
        rw [hname]
        exact Nat.not_lt_zero _
      rw [if_neg (not_or.2 ⟨hlong, fun hn => hshort hn.2⟩), hnil, Path.place_of_parts_eq_nil hnil]
      rfl
    · rw [List.concat_eq_append] at hparts
      have hname := Path.name_of_parts_eq_append hparts
      rw [hparts, List.dropLast_concat] at hwalk
      have hlast : (parts ++ [name]).foldlM d.step [] = d.step k name := by
        rw [List.foldlM_append, hwalk]
        show (d.step k name >>= pure) = d.step k name
        exact bind_pure _
      have hend : p.place = if name = ".." then k.dropLast else k ++ [name] := by
        rw [Path.place_of_parts_eq_append hparts, walk_eq_ok hwalk]
        rfl
      rw [hparts, hlast, hend, hname, step_of_directory hdirectory]
      by_cases hup : name = ".."
      · rw [if_pos hup, if_pos hup, if_neg (not_or.2 ⟨hlong, fun hn => hn.1 hup⟩)]
      · rw [if_neg hup, if_neg hup]
        by_cases hbig : nameLimit < name.utf8ByteSize
        · rw [if_pos hbig, if_pos (.inr ⟨hup, hbig⟩)]
        · rw [if_neg hbig, if_neg (not_or.2 ⟨hlong, fun hn => hbig hn.2⟩)]

/-- In a directory that exists, the status of a path is the entry at its place. -/
theorem status_of_leads (h : d.Leads p.parent) {e : Option Entry} (he : d.status p = .ok e) :
    d.place p = .ok p.place ∧ d.entryAt? p.place = e := by
  have hplace := place_of_leads h
  split at hplace
  · rw [status, hplace] at he
    cases he
  · rw [status_of_place hplace] at he
    exact ⟨hplace, Except.ok.inj he⟩

/-! ### Files -/

/-- The bytes and the mode of the file at a place, if there is one. -/
def file? (d : Disk) (k : Place) : Option (ByteArray × Nat) :=
  match d.entryAt? k with
  | some (.file bytes mode) => some (bytes, mode)
  | _ => none

theorem file?_eq_some {bytes : ByteArray} {mode : Nat} :
    d.file? k = some (bytes, mode) ↔ d.entryAt? k = some (.file bytes mode) := by
  unfold file?
  split
  · next b m h => simp [h]
  · next h =>
    constructor
    · intro hnone
      cases hnone
    · intro hentry
      exact absurd hentry (h _ _)

theorem file?_congr (h : s.entryAt? k = d.entryAt? k) : s.file? k = d.file? k := by
  unfold file?
  rw [h]

/-! ### Growing -/

/-- A place keeps what it holds; where there is nothing, a directory may be made. -/
def Kept (d s : Disk) (k : Place) : Prop :=
  s.entryAt? k = d.entryAt? k ∨ d.entryAt? k = none ∧ s.entryAt? k = some .directory

/-- Every place keeps what it holds; where there is nothing, a directory may be made. -/
def Grown (d s : Disk) : Prop := ∀ k, Kept d s k

theorem Kept.refl (d : Disk) (k : Place) : Kept d d k := .inl rfl

theorem Kept.trans (h : Kept d s k) (h' : Kept s t k) : Kept d t k := by
  -- What was made is there, so nothing can be made in its place.
  rcases h with h | ⟨hnone, hmade⟩
  · rcases h' with h' | ⟨hnone', hmade'⟩
    · exact .inl (h'.trans h)
    · exact .inr ⟨h ▸ hnone', hmade'⟩
  · rcases h' with h' | ⟨hnone', -⟩
    · exact .inr ⟨hnone, h'.trans hmade⟩
    · rw [hmade] at hnone'
      cases hnone'

theorem Kept.file?_eq (h : Kept d s k) : s.file? k = d.file? k := by
  rcases h with h | ⟨hnone, hmade⟩
  · exact file?_congr h
  · unfold file?
    rw [hnone, hmade]

theorem Kept.directory (h : Kept d s k) (hd : d.entryAt? k = some .directory) :
    s.entryAt? k = some .directory := by
  rcases h with h | ⟨-, hmade⟩
  · exact h.trans hd
  · exact hmade

/-- Nothing is taken away where something is kept. -/
theorem Kept.missing (h : Kept d s k) (hs : s.entryAt? k = none) : d.entryAt? k = none := by
  rcases h with h | ⟨hnone, -⟩
  · exact h ▸ hs
  · exact hnone

theorem Grown.refl (d : Disk) : Grown d d := fun k => .refl d k

theorem Grown.trans (h : Grown d s) (h' : Grown s t) : Grown d t := fun k => (h k).trans (h' k)

/-- A path leads where it led before. -/
theorem Grown.place (h : Grown d s) (hd : d.place p = .ok k) : s.place p = .ok k :=
  place_mono (fun k hk => (h k).directory hk) hd

/-- A walk that becomes possible as directories are added had failed for a missing one. -/
theorem Grown.missing_of_walk {cause : SystemCause} (h : Grown d s) {parts : List String}
    (hd : parts.foldlM d.step j = .error cause) (hs : parts.foldlM s.step j = .ok k) :
    cause = .missing := by
  induction parts generalizing j with
  | nil => cases hd
  | cons name rest ih =>
    rw [List.foldlM_cons, bind_eq_ok] at hs
    obtain ⟨i, hstep, hs⟩ := hs
    rw [List.foldlM_cons] at hd
    -- As long as the places are the same, so are the steps; the first one that differs was missing.
    rcases h j with hsame | ⟨hnone, -⟩
    · rw [← step_congr hsame, hstep] at hd
      exact ih hd hs
    · unfold step at hd
      rw [hnone] at hd
      cases hd
      rfl

/-- If a path leads somewhere only after a disk has grown, a part of it was missing before. -/
theorem Grown.missing_of_place {cause : SystemCause} (h : Grown d s)
    (hd : d.place p = .error cause) (hs : s.place p = .ok k) : cause = .missing := by
  unfold Disk.place at hd hs
  split at hd
  · next hlong =>
    rw [if_pos hlong] at hs
    cases hs
  · next hlong =>
    rw [if_neg hlong] at hs
    exact h.missing_of_walk hd hs

theorem grown_put_directory (h : d.entryAt? k = none) : Grown d (d.put k .directory) := by
  have hk := ne_nil_of_missing h
  intro j
  by_cases hj : j = k
  · rw [hj]
    exact .inr ⟨h, entryAt?_put_self hk _⟩
  · exact .inl (entryAt?_put_of_ne hk _ hj)

/-! ### Making directories -/

/-- A path is located where it leads. -/
theorem locate_eq_ok : d.locate p = .ok k ↔ d.place p = .ok k := by
  unfold locate
  cases d.place p with
  | error cause => exact ⟨nofun, nofun⟩
  | ok i => exact ⟨fun h => Except.ok.inj h ▸ rfl, fun h => Except.ok.inj h ▸ rfl⟩

/-- A directory is made only where nothing is. -/
theorem makeDirectory_eq_ok :
    d.makeDirectory p = .ok s ↔
      ∃ k, d.place p = .ok k ∧ d.entryAt? k = none ∧ s = d.put k .directory := by
  unfold makeDirectory
  rw [bind_eq_ok]
  constructor
  · rintro ⟨k, hk, h⟩
    cases hentry : d.entryAt? k with
    | some e =>
      rw [hentry] at h
      cases h
    | none =>
      rw [hentry] at h
      cases h
      exact ⟨k, locate_eq_ok.1 hk, hentry, rfl⟩
  · rintro ⟨k, hk, hentry, rfl⟩
    refine ⟨k, locate_eq_ok.2 hk, ?_⟩
    rw [hentry]
    rfl

/-- A path is one to a directory exactly when it leads to one. -/
theorem isDirectory_eq_true : d.isDirectory p = .ok true ↔ d.Leads p := by
  unfold isDirectory status
  rw [map_eq_ok]
  constructor
  · rintro ⟨e, he, htrue⟩
    -- A path that leads nowhere has no entry, or is refused.
    split at he
    · next k hk =>
      cases he
      split at htrue
      · next hentry => exact ⟨k, hk, hentry⟩
      · cases htrue
    · cases he
      cases htrue
    · cases he
      cases htrue
    · cases he
  · rintro ⟨k, hk, hentry⟩
    exact ⟨d.entryAt? k, status_of_place hk, by rw [hentry]⟩

/-- Making a directory adds to the disk, and the path then leads to it. -/
theorem grown_of_makeDirectory (h : d.makeDirectory p = .ok s) : Grown d s ∧ s.Leads p := by
  obtain ⟨k, hk, hentry, rfl⟩ := makeDirectory_eq_ok.1 h
  have hgrown := grown_put_directory hentry
  exact ⟨hgrown, k, hgrown.place hk, entryAt?_put_self (ne_nil_of_missing hentry) _⟩

/-- Ensuring a directory adds to the disk at most, and the path then leads to it. -/
theorem grown_of_ensureDirectory (h : d.ensureDirectory p = .ok s) : Grown d s ∧ s.Leads p := by
  unfold ensureDirectory at h
  split at h
  · next made hmade =>
    cases h
    exact grown_of_makeDirectory hmade
  · -- What could not be made may be there already, as a directory.
    split at h
    · cases h
    · split at h
      · next hthere =>
        cases h
        exact ⟨.refl d, isDirectory_eq_true.1 hthere⟩
      · cases h
      · cases h

theorem grown_made_of {r : Except SystemFault Disk} (h : ∀ s, r = .ok s → Grown d s ∧ s.Leads p) :
    Grown d (Made.of d r).disk ∧ ((Made.of d r).fault = none → (Made.of d r).disk.Leads p) := by
  cases r with
  | ok s => exact ⟨(h s rfl).1, fun _ => (h s rfl).2⟩
  | error f => exact ⟨.refl d, nofun⟩

/-- Making directories changes nothing else, and without a fault the path leads to one. -/
theorem makeFirst_spec (d : Disk) (p : Path) (n : Nat) :
    Grown d (d.makeFirst p n).disk ∧
      ((d.makeFirst p n).fault = none → (d.makeFirst p n).disk.Leads (p.first n)) := by
  induction n with
  | zero => exact grown_made_of fun s => grown_of_ensureDirectory
  | succ n ih =>
    unfold makeFirst
    split
    · next made hmade =>
      obtain ⟨hgrown, hleads⟩ := grown_of_makeDirectory hmade
      exact ⟨hgrown, fun _ => hleads⟩
    · split
      · -- The directories before it come first, and they stay whatever becomes of this one.
        dsimp only
        split
        · next f hf => exact ⟨ih.1, fun hnone => absurd (hf.symm.trans hnone) nofun⟩
        · have hlast := grown_made_of fun s =>
            @grown_of_ensureDirectory (d.makeFirst p n).disk s (p.first (n + 1))
          exact ⟨ih.1.trans hlast.1, hlast.2⟩
      · exact grown_made_of fun s => grown_of_ensureDirectory

theorem makeDirectories_spec (d : Disk) (p : Path) :
    Grown d (d.makeDirectories p).disk ∧
      ((d.makeDirectories p).fault = none → (d.makeDirectories p).disk.Leads p) := by
  have h := makeFirst_spec d p p.parts.length
  rw [Path.first_length] at h
  exact h

end Disk

end BoundaryTypes
