/-
  `Replace` — a file replaced as a whole.

  The new content goes to a temporary file beside the target, which then takes the
  target's place. Nobody sees a half written target: before the last step it is what it
  was, after it it is new. The work is cut into the steps that can fail on their own
  (`WriteStep`), and any of them may be interrupted in its midst (`Interruption`). When a
  step fails, the temporary file is removed. A replaced file keeps its mode, a new one
  gets the mode that the mask allows.
-/
import BoundaryTypes.Disk.Text

namespace BoundaryTypes

/-- The steps of a replacement that can fail. -/
inductive WriteStep where
  | makeDirectories
  | createTemporary
  | writeText
  | flush
  | sync
  | readMode
  | changeMode
  | replace
deriving DecidableEq, Repr

/-- The steps in their order. -/
def WriteStep.all : List WriteStep :=
  [.makeDirectories, .createTemporary, .writeText, .flush, .sync, .readMode, .changeMode, .replace]

/-- A step that the system does not carry through. -/
structure Interruption where
  fault : SystemFault
  /-- How much of the step is done before: directories that exist, or bytes that are written. -/
  progress : Nat := 0
deriving DecidableEq, Repr

/-- The steps that are interrupted. -/
abbrev Interruptions := WriteStep → Option Interruption

/-- No step is interrupted. -/
def Interruptions.never : Interruptions := fun _ => none

/-- A replacement: the target and its new content. -/
structure Replacement where
  target : Path
  bytes : ByteArray
  /-- The permission bits that a new file does not get. -/
  mask : Nat

/-- A temporary file: its path, and the place that it leads to. -/
structure Temporary where
  path : Path
  place : Place

/-- How far a replacement has come. -/
structure Draft where
  disk : Disk
  /-- The temporary file while it exists. -/
  temporary : Option Temporary := none
  /-- The mode that the target is going to have. -/
  mode : Nat := 0

/-- What a step leaves: a draft in every case, and perhaps a failure. -/
structure Attempt where
  draft : Draft
  failure : Option Failure := none

/-- A step that either takes a draft further or leaves it as it is. -/
def Attempt.of (draft : Draft) : Except Failure Draft → Attempt
  | .ok next => ⟨next, none⟩
  | .error f => ⟨draft, some f⟩

/-- What a disk goes through: every disk from the first to the last, and perhaps a failure. -/
structure Course where
  disks : List Disk
  last : Disk
  failure : Option Failure := none

namespace Course

/-- The course that ends where it begins. -/
def still (d : Disk) (failure : Option Failure) : Course := ⟨[d], d, failure⟩

/-- A course with a disk before it. -/
def after (d : Disk) (c : Course) : Course := { c with disks := d :: c.disks }

end Course

namespace Replacement

/-- The mode of a file before anyone sets it. -/
def privateMode : Nat := 0o600

/-- The mode of a new file: everyone may read and write, less the mask. -/
def newMode (mask : Nat) : Nat := 0o666 &&& (0o777 ^^^ mask)

/-- The mode of a directory, which cannot be replaced anyway. -/
def directoryMode : Nat := 0o755

/-- The name of the temporary file with a number. -/
def temporaryName (target : Path) (n : Nat) : String :=
  let digits := toString n
  "." ++ target.name ++ "." ++ String.ofList (List.replicate (8 - digits.length) '0') ++ digits
    ++ ".tmp"

/-- The temporary file with a number: it stands beside the target. -/
def temporaryPath (target : Path) (n : Nat) : Path :=
  { target with parts := target.parts.dropLast ++ [temporaryName target n] }

/-- Whether nothing has the name of the temporary file with a number. -/
def isFree (d : Disk) (target : Path) (n : Nat) : Bool :=
  match d.status (temporaryPath target n) with
  | .ok none => true
  | _ => false

/-- The least number whose temporary file is not taken. -/
def freeNumber (d : Disk) (target : Path) : Nat :=
  -- There are more candidates than entries, so one of them is free.
  ((List.range (d.entries.length + 1)).find? (isFree d target)).getD 0

/-- The mode that the target is going to have. -/
def targetMode (r : Replacement) (d : Disk) : Except SystemFault Nat :=
  match d.place r.target with
  | .ok k =>
    match d.entryAt? k with
    | some (.file _ mode) => .ok mode
    | some .directory => .ok directoryMode
    | none => .ok (newMode r.mask)
  | .error .missing => .ok (newMode r.mask)
  | .error cause => .error ⟨cause, r.target.text, none⟩

/-- A temporary file where there is none yet. -/
def create (r : Replacement) (draft : Draft) : Except Failure Draft := do
  let path := temporaryPath r.target (freeNumber draft.disk r.target)
  Failure.checkName path
  let k ← Failure.ofSystem (draft.disk.locate path)
  if (draft.disk.entryAt? k).isSome then throw (.system ⟨.exists, path.text, none⟩)
  pure
    { draft with
      disk := draft.disk.put k (.file .empty privateMode)
      temporary := some ⟨path, k⟩ }

/-- A change of the temporary file. -/
def changeTemporary (draft : Draft) (change : ByteArray → Nat → Entry) : Draft :=
  match draft.temporary with
  | none => draft
  | some t =>
    match draft.disk.entryAt? t.place with
    | some (.file bytes mode) => { draft with disk := draft.disk.put t.place (change bytes mode) }
    | _ => draft

/-- The temporary file with new bytes. -/
def fill (draft : Draft) (bytes : ByteArray) : Draft :=
  changeTemporary draft fun _ mode => .file bytes mode

/-- Puts the temporary file in the target's place, at once. -/
def exchange (r : Replacement) (draft : Draft) : Except SystemFault Draft := do
  let name := draft.temporary.elim "" (·.path.text)
  let refuse (cause : SystemCause) : SystemFault := ⟨cause, name, some r.target.text⟩
  let k ← (draft.disk.place r.target).mapError refuse
  -- A target that ends in `..` is a directory in use.
  if r.target.name = ".." then throw (refuse .busy)
  match draft.disk.entryAt? k with
  | some .directory => throw (refuse .isDirectory)
  | _ =>
    match draft.temporary with
    | none => throw (refuse .missing)
    | some t =>
      match draft.disk.entryAt? t.place with
      | none => throw (refuse .missing)
      | some e => pure { draft with disk := (draft.disk.erase t.place).put k e, temporary := none }

/-- A draft whose directories were made, as far as they could be. -/
def withDirectories (draft : Draft) (made : Disk.Made) : Attempt :=
  ⟨{ draft with disk := made.disk }, made.fault.map .system⟩

/-- What a step does. Text is written to memory first, and flushing puts it on the disk. -/
def perform (r : Replacement) (draft : Draft) : WriteStep → Attempt
  | .makeDirectories => withDirectories draft (draft.disk.makeDirectories r.target.parent)
  | .createTemporary => .of draft (r.create draft)
  | .writeText => ⟨draft, none⟩
  | .flush => ⟨fill draft r.bytes, none⟩
  | .sync => ⟨draft, none⟩
  | .readMode =>
    .of draft (Failure.ofSystem ((r.targetMode draft.disk).map fun mode => { draft with mode }))
  | .changeMode => ⟨changeTemporary draft fun bytes _ => .file bytes draft.mode, none⟩
  | .replace => .of draft (Failure.ofSystem (r.exchange draft))

/-- What is left of a step that is interrupted. Long text may reach the disk before it is
flushed. -/
def interrupt (r : Replacement) (draft : Draft) (i : Interruption) : WriteStep → Attempt
  | .makeDirectories =>
    ⟨{ draft with disk := (draft.disk.makeFirst r.target.parent i.progress).disk },
      some (.system i.fault)⟩
  | .writeText | .flush => ⟨fill draft (r.bytes.extract 0 i.progress), some (.system i.fault)⟩
  | .readMode =>
    -- That there is no target is no failure: the file is a new one then.
    if i.fault.cause = .missing then ⟨{ draft with mode := newMode r.mask }, none⟩
    else ⟨draft, some (.system i.fault)⟩
  | .createTemporary | .sync | .changeMode | .replace => ⟨draft, some (.system i.fault)⟩

/-- A step, which may be interrupted. -/
def attempt (r : Replacement) (faults : Interruptions) (draft : Draft) (step : WriteStep) :
    Attempt :=
  match faults step with
  | some i => r.interrupt draft i step
  | none => r.perform draft step

/-- The draft without its temporary file. -/
def discard (draft : Draft) : Draft :=
  match draft.temporary with
  | none => draft
  | some t => { draft with disk := draft.disk.erase t.place, temporary := none }

/-- Performs steps until one fails; then the temporary file is removed. -/
def performAll (r : Replacement) (faults : Interruptions) (draft : Draft) :
    List WriteStep → Course
  | [] => .still draft.disk none
  | step :: rest =>
    let next := r.attempt faults draft step
    match next.failure with
    | none => (r.performAll faults next.draft rest).after draft.disk
    | some f =>
      ((Course.still (discard next.draft).disk (some f)).after next.draft.disk).after draft.disk

/-- The course of a replacement. -/
def course (r : Replacement) (faults : Interruptions) (d : Disk) : Course :=
  r.performAll faults { disk := d } WriteStep.all

end Replacement

namespace Disk

/-- The course of a disk when a file is replaced as a whole. Empty content is refused. -/
def writeCourse (d : Disk) (mask : Nat) (target : Path) (content : String)
    (faults : Interruptions) : Course :=
  if content = "" then .still d (some (.value (.emptyDeclaration target)))
  else if target.parent.hasNull then .still d (some (.value .nullCharacter))
  else
    let r : Replacement := { target, mask, bytes := content.toUTF8 }
    r.course faults d

/-- The outcome of a replacement: a disk in every case, and perhaps a fault. -/
structure Written where
  disk : Disk
  fault : Option Failure

/-- Replaces a file as a whole, as far as the interruptions allow. -/
def writeUnder (faults : Interruptions) (d : Disk) (mask : Nat) (target : Path) (content : String) :
    Written :=
  let c := d.writeCourse mask target content faults
  ⟨c.last, c.failure⟩

/-- Replaces a file as a whole, without interruptions. -/
def writeAtomic (d : Disk) (mask : Nat) (target : Path) (content : String) : Written :=
  writeUnder .never d mask target content

end Disk

end BoundaryTypes
