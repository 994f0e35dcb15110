/-
  `Run` — the declaration file of a project, made anew.

  A run loads the project's settings, gets the module's descriptor from a file or from
  the extractor, and makes the text. `preview` ends there; `generate` compares the text with
  the file that is there and replaces it when they differ, unless it is a dry run. A run
  changes nothing but the state that it acts on (`RunState`), commonly its activity: the
  disk, the events that it reported, and the extractors that it ran.
-/
import BoundaryTypes.Diff.Unified
import BoundaryTypes.Disk.Replace
import BoundaryTypes.Log
import BoundaryTypes.Settings.Load
import BoundaryTypes.Tools

namespace BoundaryTypes

/-- Where a run takes place. -/
structure Host where
  /-- The directory from which relative names are seen. -/
  directory : Path
  /-- The permission bits that new files do not get. -/
  mask : Nat
  tools : Tools

/-- What a run has done. -/
structure Activity where
  disk : Disk
  events : List Event := []
  invocations : List Command.Invocation := []

/-- What a run is asked for. -/
structure Request where
  /-- The project. -/
  path : String := "."
  /-- A file with the descriptor, instead of the settings' source. -/
  descriptor : Option String := none
  /-- The name that the module gets, whatever the descriptor says. -/
  moduleName : Option String := none
deriving DecidableEq

/-- What a run of `generate` has found and done. -/
structure Outcome where
  path : Path
  moduleName : String
  diff : String
  changed : Bool
  dryRun : Bool

/-- States that a run may act on: there is a disk, and something becomes of what is reported and of
extractors that are run. -/
class RunState (σ : Type) where
  disk : σ → Disk
  withDisk : σ → Disk → σ
  reported : σ → Event → σ
  invoked : σ → Command.Invocation → σ

/-- Where nothing else is said, a run keeps what it has done. -/
@[default_instance]
instance : RunState Activity where
  disk := Activity.disk
  withDisk a d := { a with disk := d }
  reported a e := { a with events := a.events ++ [e] }
  invoked a v := { a with invocations := a.invocations ++ [v] }

/-- A step of a run that acts on states of a kind. -/
abbrev RunOn (σ : Type) := EStateM Failure σ

/-- A step of a run. -/
abbrev RunM := RunOn Activity

namespace Run

variable {σ : Type} [RunState σ]

/-- Reports an event. -/
def report (e : Event) : RunOn σ Unit := modify fun s => RunState.reported s e

/-- An outcome that needs no more than the disk. -/
def fromDisk {α : Type} (f : Disk → Except Failure α) : RunOn σ α := do
  match f (RunState.disk (← get)) with
  | .ok v => pure v
  | .error failure => throw failure

/-- An outcome that needs nothing. -/
def lift {α : Type} (r : Except Failure α) : RunOn σ α := fromDisk fun _ => r

/-- A given text, unless it is missing or empty. -/
def given? (s : Option String) : Option String := s.filter (· ≠ "")

/-- The project that a request names. Home directories have been put in for `~` in what comes with a
request. -/
def project (host : Host) (request : Request) : Except Failure Path := do
  let path := Path.ofText request.path
  Failure.checkName path
  pure (Path.resolve host.directory path)

/-- The descriptor that a file holds. -/
def readDescriptor (fallback : Option String) (path : Path) : RunOn σ Descriptor := do
  report (.readingDescriptor path)
  fromDisk fun d => Extraction.load d fallback path

/-- The descriptor that the extractor prints. -/
def extract (host : Host) (settings : ExtractorSettings) (project : Path)
    (fallback : Option String) : RunOn σ Descriptor := do
  if settings.command.isEmpty then throw (.extraction .noCommand)
  let v := Extraction.invocation settings project
  report (.runningExtractor v.args v.directory)
  modify fun s => RunState.invoked s v
  let printed ← fromDisk fun d => host.tools.runner d v
  lift (Extraction.decode fallback printed)

/-- The descriptor from the request's file, else from the settings' file, else from the
extractor. -/
def obtain (host : Host) (settings : Settings) (project : Path) (request : Request) :
    RunOn σ Descriptor := do
  let fallback := (given? request.moduleName).or settings.moduleName
  match given? request.descriptor, settings.descriptor with
  | some file, _ => readDescriptor fallback (host.directory.joinText file)
  | none, some path => readDescriptor fallback path
  | none, none =>
    if settings.extractor.command.isEmpty then throw (.extraction .noSource)
    extract host settings.extractor project fallback

/-- The descriptor with the name that the request asks for. -/
def rename (request : Request) (d : Descriptor) : RunOn σ Descriptor := do
  match given? request.moduleName with
  | none => pure d
  | some name =>
    if d.moduleName ≠ name then report (.otherModuleReported d.moduleName name)
    pure { d with moduleName := name }

/-- The text for a descriptor. A refused type is reported. -/
def assemble (host : Host) (settings : Settings) (d : Descriptor) : RunOn σ String := do
  let names ← lift (settings.names.resolve.mapError fun f => .settings (.names f))
  match DeclarationFile.assemble names d with
  | .error f =>
    for e in Event.ofFault f do report e
    throw (.type f)
  | .ok file =>
    report (.assembled file.declarations.length d.moduleName)
    fromDisk (Template.text host.tools.engine settings.templates file)

/-- The settings, the descriptor and the text of a project. -/
def make (host : Host) (project : Path) (request : Request) :
    RunOn σ (Settings × Descriptor × String) := do
  let settings ← fromDisk fun d => Settings.load d project host.tools.parser
  let descriptor ← rename request (← obtain host settings project request)
  pure (settings, descriptor, ← assemble host settings descriptor)

/-- The text for a project. -/
def preview (host : Host) (request : Request) : RunOn σ String := do
  let path ← lift (project host request)
  pure (← make host path request).2.2

/-- What a run is going to write, and where. -/
structure Plan where
  target : Path
  moduleName : String
  content : String

/-- The text for a project, and the file that is to hold it. -/
def plan (host : Host) (request : Request) : RunOn σ Plan := do
  let path ← lift (project host request)
  report (.starting path)
  let (settings, descriptor, content) ← make host path request
  pure ⟨settings.outputPath descriptor.modulePath, descriptor.moduleName, content⟩

/-- Replaces a file as a whole. -/
def write (faults : Interruptions) (host : Host) (path : Path) (content : String) :
    RunOn σ Unit := do
  let w := Disk.writeUnder faults (RunState.disk (← get)) host.mask path content
  modify fun s => RunState.withDisk s w.disk
  if let some f := w.fault then throw f

/-- Compares what is planned with the file that is there, and replaces it when they differ. -/
def carryOut (faults : Interruptions) (host : Host) (dryRun : Bool) (p : Plan) :
    RunOn σ Outcome := do
  let current ← fromDisk fun d => d.readExisting p.target
  let changed := current != p.content
  let diff := if changed then Diff.render current p.content p.target.name else ""
  -- A file that is up to date is not touched.
  if dryRun then report (.notWritten p.target)
  else if changed then
    write faults host p.target p.content
    report (.written p.target)
  else report (.upToDate p.target)
  pure { path := p.target, moduleName := p.moduleName, diff, changed, dryRun }

/-- Brings the declaration file of a project up to date, as far as the interruptions allow. -/
def generateUnder (faults : Interruptions) (host : Host) (request : Request) (dryRun : Bool) :
    RunOn σ Outcome := do
  carryOut faults host dryRun (← plan host request)

/-- Brings the declaration file of a project up to date, without interruptions. -/
def generate (host : Host) (request : Request) (dryRun : Bool) : RunOn σ Outcome :=
  generateUnder .never host request dryRun

end Run

end BoundaryTypes
