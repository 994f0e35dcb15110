/-
  `Logger` — the one logger of a process.

  All runs of a process report to the same logger. It has a level and handlers, and each run
  configures it anew: a console, and perhaps a log file. What reaches the logger's level goes to
  all its handlers, and a handler takes what reaches its own. With a log file the logger takes
  everything, so that the console has to keep a level of its own.
-/
import BoundaryTypes.Run

namespace BoundaryTypes

/-- An open log file. -/
structure LogFile where
  place : Place
  mode : Nat
  /-- What the file held when it was opened, or written for the last time. -/
  bytes : ByteArray

namespace LogFile

/-- Opens a log file. It is made with the directories that lead to it. A home directory has been put
in for `~` in its name. -/
def openIn (host : Host) (d : Disk) (name : String) : Except Failure (Disk × LogFile) := do
  let path := host.directory.joinText name
  Failure.checkName path
  let d ← Failure.ofSystem (d.ensureDirectories path.parent)
  -- The directories exist now, and the name of the opened file is the resolved one.
  let path := Path.resolve host.directory path
  let k ← Failure.ofSystem (d.locate path)
  match d.entryAt? k with
  | some .directory => throw (.system ⟨.isDirectory, path.text, none⟩)
  | some (.file bytes mode) => pure (d, ⟨k, mode, bytes⟩)
  | none =>
    let mode := Replacement.newMode host.mask
    pure (d.put k (.file .empty mode), ⟨k, mode, .empty⟩)

/-- What is left of a disk on which a log file cannot be opened: the directories that lead to it, as
far as they could be made, are there. -/
def refused (host : Host) (d : Disk) (name : String) : Disk :=
  let parent := (host.directory.joinText name).parent
  if parent.hasNull then d else (d.makeDirectories parent).disk

/-- The file as it was opened, or written for the last time. -/
def entry (f : LogFile) : Entry := .file f.bytes f.mode

/-- Writes at the end of a log file. Once another file has taken its place, nothing of that is to be
seen on the disk. -/
def append (f : LogFile) (d : Disk) (text : String) : LogFile × Disk :=
  if d.entryAt? f.place = some f.entry then
    let written := { f with bytes := f.bytes ++ text.toUTF8 }
    (written, d.put f.place written.entry)
  else (f, d)

end LogFile

/-- What takes the records of a logger. -/
inductive Handler where
  | console (c : Console)
  /-- A log file takes records of every level. -/
  | file (f : LogFile)

/-- A logger. -/
structure Logger where
  threshold : Level
  handlers : List Handler

namespace Logger

/-- The logger of a process before its first run. -/
def initial : Logger := ⟨.warning, []⟩

/-- Whether records of a level get to the handlers. -/
def takes (l : Logger) (level : Level) : Bool := l.threshold.rank ≤ level.rank

/-- A logger with one more handler. -/
def withHandler (l : Logger) (h : Handler) : Logger := { l with handlers := l.handlers ++ [h] }

/-- Configures a logger for a run. -/
def configured (l : Logger) (console : Console) (log : Option LogFile) : Logger :=
  let l := { l with threshold := if log.isSome then .debug else console.threshold }
  -- With the handlers of earlier runs, everything would be shown once more for each of them.
  let l := { l with handlers := [] }
  let l := l.withHandler (.console console)
  match log with
  | none => l
  | some f => l.withHandler (.file f)

end Logger

/-- What a run with a logger acts on. -/
structure Logged where
  disk : Disk
  logger : Logger
  /-- The time, as log files write it. -/
  time : String
  /-- What the console has shown. -/
  shown : String := ""
  /-- What was reported, whether anything took it or not. -/
  records : List Event := []

namespace Logged

/-- One handler takes a record; it stays behind the handlers that have taken it already. -/
def handle (e : Event) (s : Logged) : Handler → Logged
  | .console c =>
    { s with shown := s.shown ++ c.display [e], logger := s.logger.withHandler (.console c) }
  | .file f =>
    let (f, disk) := f.append s.disk (e.fileLine s.time)
    { s with disk, logger := s.logger.withHandler (.file f) }

/-- An event is reported: if it reaches the logger's level, the handlers take it one after
another. -/
def report (s : Logged) (e : Event) : Logged :=
  let s := { s with records := s.records ++ [e] }
  if s.logger.takes e.level then
    s.logger.handlers.foldl (handle e) { s with logger := { s.logger with handlers := [] } }
  else s

end Logged

instance : RunState Logged where
  disk := Logged.disk
  withDisk s d := { s with disk := d }
  reported := Logged.report
  invoked s _ := s

end BoundaryTypes
