/-
  `Disk` — directories and files as a value.

  A disk gives an entry to places, where a place is the list of names that leads to
  it from the root. The root is a directory always. A path leads to a place one part at
  a time, and every part but the last must lead to a directory that exists. What a
  system call would refuse is a `SystemFault` with the path that it was given.
-/
import BoundaryTypes.Path
import BoundaryTypes.Text.Display

namespace BoundaryTypes

/-- Why the system refuses a call. -/
inductive SystemCause where
  | missing
  | badFormat
  | denied
  | busy
  | exists
  | notDirectory
  | isDirectory
  | nameTooLong
deriving DecidableEq, Repr

namespace SystemCause

/-- The number of a cause. -/
def code : SystemCause → Nat
  | .missing => 2
  | .badFormat => 8
  | .denied => 13
  | .busy => 16
  | .exists => 17
  | .notDirectory => 20
  | .isDirectory => 21
  | .nameTooLong => 36

/-- The words for a cause. -/
def words : SystemCause → String
  | .missing => "No such file or directory"
  | .badFormat => "Exec format error"
  | .denied => "Permission denied"
  | .busy => "Device or resource busy"
  | .exists => "File exists"
  | .notDirectory => "Not a directory"
  | .isDirectory => "Is a directory"
  | .nameTooLong => "File name too long"

end SystemCause

/-- A refused call: the cause, and the names that the call was given. -/
structure SystemFault where
  cause : SystemCause
  name : String
  /-- The second name of a call that takes two. -/
  target : Option String := none
deriving DecidableEq, Repr

/-- The number, the words and the names of a refused call. -/
def SystemFault.message (f : SystemFault) : String :=
  "[Errno " ++ toString f.cause.code ++ "] " ++ f.cause.words ++ ": " ++ Text.display f.name
    ++ match f.target with
      | none => ""
      | some t => " -> " ++ Text.display t

/-- What stands at a place. -/
inductive Entry where
  | directory
  | file (bytes : ByteArray) (mode : Nat)

/-- Two files are equal when their bytes are, one by one, and their modes. -/
instance : DecidableEq Entry
  | .directory, .directory => isTrue rfl
  | .directory, .file _ _ => isFalse nofun
  | .file _ _, .directory => isFalse nofun
  | .file ⟨bytes⟩ mode, .file ⟨others⟩ other =>
    if h : bytes = others ∧ mode = other then isTrue (by rw [h.1, h.2])
    else isFalse fun e => h (by cases e; exact ⟨rfl, rfl⟩)

/-- The names that lead from the root to a place. -/
abbrev Place := List String

/-- Entries by their places; the first one of a place counts. -/
structure Disk where
  entries : List (Place × Entry)

namespace Disk

/-- The entry at a place. -/
def entryAt? (d : Disk) (k : Place) : Option Entry :=
  if k = [] then some .directory else (d.entries.find? fun e => e.1 = k).map (·.2)

/-- A new entry at a place. -/
def put (d : Disk) (k : Place) (e : Entry) : Disk :=
  ⟨(k, e) :: d.entries.filter fun x => x.1 ≠ k⟩

/-- A place without entry. -/
def erase (d : Disk) (k : Place) : Disk := ⟨d.entries.filter fun x => x.1 ≠ k⟩

/-- The most bytes that a name may have. -/
def nameLimit : Nat := 255

/-- The most bytes that the text of a path may have. -/
def pathLimit : Nat := 4095

/-- The place that a name leads to from the place `k`. -/
def step (d : Disk) (k : Place) (name : String) : Except SystemCause Place :=
  match d.entryAt? k with
  | none => .error .missing
  | some (.file _ _) => .error .notDirectory
  | some .directory =>
    if name = ".." then .ok k.dropLast
    -- A name that is too long cannot be looked up, whether there is an entry or not.
    else if nameLimit < name.utf8ByteSize then .error .nameTooLong
    else .ok (k ++ [name])

/-- The place that a path leads to, whether there is an entry or not. -/
def place (d : Disk) (p : Path) : Except SystemCause Place :=
  if pathLimit < p.text.utf8ByteSize then .error .nameTooLong else p.parts.foldlM d.step []

/-- The place of a path, where a fault names the path. -/
def locate (d : Disk) (p : Path) : Except SystemFault Place :=
  (d.place p).mapError fun cause => ⟨cause, p.text, none⟩

/-- What a path leads to: nothing when a part is missing or no directory. -/
def status (d : Disk) (p : Path) : Except SystemFault (Option Entry) :=
  match d.place p with
  | .ok k => .ok (d.entryAt? k)
  | .error .missing | .error .notDirectory => .ok none
  | .error cause => .error ⟨cause, p.text, none⟩

/-- Whether a path leads to a directory. -/
def isDirectory (d : Disk) (p : Path) : Except SystemFault Bool :=
  (d.status p).map fun e => match e with
    | some .directory => true
    | _ => false

/-- Whether a path leads to a file, without faults. -/
def isFile (d : Disk) (p : Path) : Bool :=
  match d.place p with
  | .ok k =>
    match d.entryAt? k with
    | some (.file _ _) => true
    | _ => false
  | .error _ => false

/-- The bytes of the file that a path leads to. -/
def readBytes (d : Disk) (p : Path) : Except SystemFault ByteArray := do
  match d.entryAt? (← d.locate p) with
  | some (.file bytes _) => pure bytes
  | some .directory => throw ⟨.isDirectory, p.text, none⟩
  | none => throw ⟨.missing, p.text, none⟩

/-- A new directory. -/
def makeDirectory (d : Disk) (p : Path) : Except SystemFault Disk := do
  let k ← d.locate p
  if (d.entryAt? k).isSome then throw ⟨.exists, p.text, none⟩
  pure (d.put k .directory)

/-- A directory that may exist already. -/
def ensureDirectory (d : Disk) (p : Path) : Except SystemFault Disk :=
  match d.makeDirectory p with
  | .ok d => .ok d
  | .error f =>
    if f.cause = .missing then .error f
    else
      -- Whatever else was refused, a directory that is there is good enough.
      match d.isDirectory p with
      | .ok true => .ok d
      | .ok false => .error f
      | .error g => .error g

/-- What becomes of a disk whose directories are made: a disk in every case, and perhaps a fault. -/
structure Made where
  disk : Disk
  fault : Option SystemFault := none

/-- The outcome of a call, where a refused call leaves the disk as it is. -/
def Made.of (d : Disk) : Except SystemFault Disk → Made
  | .ok made => ⟨made, none⟩
  | .error f => ⟨d, some f⟩

/-- The directory of the first `n` parts of a path with the directories that lead to it, as far as
they do not exist. Those that were made before a fault stay. -/
def makeFirst (d : Disk) (p : Path) : Nat → Made
  | 0 => .of d (d.ensureDirectory (p.first 0))
  | n + 1 =>
    match d.makeDirectory (p.first (n + 1)) with
    | .ok made => ⟨made, none⟩
    | .error f =>
      if f.cause = .missing then
        let before := d.makeFirst p n
        match before.fault with
        | some _ => before
        | none => .of before.disk (before.disk.ensureDirectory (p.first (n + 1)))
      else .of d (d.ensureDirectory (p.first (n + 1)))

/-- A directory with the directories that lead to it, as far as they do not exist. -/
def makeDirectories (d : Disk) (p : Path) : Made := d.makeFirst p p.parts.length

/-- `makeDirectories` when only a disk without fault counts. -/
def ensureDirectories (d : Disk) (p : Path) : Except SystemFault Disk :=
  let made := d.makeDirectories p
  match made.fault with
  | none => .ok made.disk
  | some f => .error f

/-- The files with their places, in the order of the disk. -/
def files (d : Disk) : List (Place × ByteArray) :=
  d.entries.filterMap fun e => match e.2 with
    | .file bytes _ => some (e.1, bytes)
    | .directory => none

theorem entryAt?_put (d : Disk) (k j : Place) (e : Entry) (h : k ≠ []) :
    (d.put k e).entryAt? j = if j = k then some e else d.entryAt? j := by
  by_cases hj : j = k
  · subst hj; simp [entryAt?, put, h]
  · simp only [entryAt?, put, hj, if_false]
    split
    · rfl
    · have hk : decide (k = j) = false := by simpa using Ne.symm hj
      rw [List.find?_cons]
      simp only [hk]
      rw [List.find?_filter]
      congr 2
      funext x
      by_cases hx : x.1 = j
      · simp [hx, hj]
      · simp [hx]

theorem entryAt?_erase (d : Disk) (k j : Place) (h : k ≠ []) :
    (d.erase k).entryAt? j = if j = k then none else d.entryAt? j := by
  by_cases hj : j = k
  · subst hj
    simp only [entryAt?, erase, h, if_false, if_true, Option.map_eq_none_iff, List.find?_eq_none]
    intro x hx
    simpa using (List.mem_filter.1 hx).2
  · simp only [entryAt?, erase, hj, if_false]
    split
    · rfl
    · rw [List.find?_filter]
      congr 2
      funext x
      by_cases hx : x.1 = j
      · simp [hx, hj]
      · simp [hx]

end Disk

end BoundaryTypes
