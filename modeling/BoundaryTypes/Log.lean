/-
  `Log` — what a run reports on its way.

  A run reports events. Each has a level and a speaker, the part of the program that
  noticed it. A console shows the events from a level on, a log file takes all of them.
  Nothing of that depends on other runs.
-/
import BoundaryTypes.Path
import BoundaryTypes.TypeFault

namespace BoundaryTypes

/-- How much an event matters. -/
inductive Level where
  | debug
  | info
  | warning
  | error
deriving DecidableEq, Repr

namespace Level

/-- The rank of a level. -/
def rank : Level → Nat
  | .debug => 10
  | .info => 20
  | .warning => 30
  | .error => 40

/-- The word for a level. -/
def word : Level → String
  | .debug => "DEBUG"
  | .info => "INFO"
  | .warning => "WARNING"
  | .error => "ERROR"

end Level

/-- The parts of the program that report. -/
inductive Speaker where
  | run
  | extraction
  | assembly
  | commandLine
deriving DecidableEq, Repr

/-- The name of a speaker in a log. -/
def Speaker.name : Speaker → String
  | .run => "portgen.orchestrator"
  | .extraction => "portgen.extractor"
  | .assembly => "portgen.assembler"
  | .commandLine => "portgen.cli"

/-- What a run reports. -/
inductive Event where
  | starting (project : Path)
  | readingDescriptor (path : Path)
  | runningExtractor (command : List String) (directory : Path)
  | otherModuleReported (reported asked : String)
  | assembled (declarations : Nat) (moduleName : String)
  | refused (f : TypeFault)
  /-- A label of the route to a refused type, with its depth. -/
  | routeLabel (depth : Nat) (label : String)
  | notWritten (path : Path)
  | written (path : Path)
  | upToDate (path : Path)
  | unexpected (command : String)

namespace Event

/-- The level of an event. -/
def level : Event → Level
  | .readingDescriptor _ | .runningExtractor _ _ | .assembled _ _ | .routeLabel _ _ => .debug
  | .starting _ | .notWritten _ | .written _ | .upToDate _ => .info
  | .otherModuleReported _ _ => .warning
  | .refused _ | .unexpected _ => .error

/-- Who reports an event. -/
def speaker : Event → Speaker
  | .runningExtractor _ _ => .extraction
  | .assembled _ _ => .assembly
  | .unexpected _ => .commandLine
  | _ => .run

/-- The words for an event. -/
def message : Event → String
  | .starting project => "Starting generate run for " ++ project.text
  | .readingDescriptor path => "Reading descriptor from " ++ path.text
  | .runningExtractor command directory =>
    "Running extractor: " ++ " ".intercalate command ++ " (cwd=" ++ directory.text ++ ")"
  | .otherModuleReported reported asked =>
    "Extractor reported module " ++ reported ++ "; using " ++ asked ++ " as requested"
  | .assembled declarations moduleName =>
    "Assembled " ++ toString declarations ++ " declarations for module " ++ moduleName
  | .refused f => "Cannot translate " ++ f.message
  | .routeLabel depth label => String.join (List.replicate depth "  ") ++ label
  | .notWritten path => "Dry-run completed; " ++ path.text ++ " not written"
  | .written path => "Declarations written to " ++ path.text
  | .upToDate path => "Declarations already up to date at " ++ path.text
  | .unexpected command => "Unexpected failure during portgen " ++ command

/-- The events that tell of a refused type: the fault, then its route label by label. -/
def ofFault (f : TypeFault) : List Event :=
  .refused f :: f.route.zipIdx.map fun p => .routeLabel p.2 p.1

end Event

/-- What a console shows. -/
structure Console where
  threshold : Level
  /-- Whether an event is shown with its speaker. -/
  withSpeaker : Bool
deriving DecidableEq, Repr

namespace Console

/-- The console of a run: everything when `verbose`, else only warnings and faults when `quiet`. -/
def ofOptions (verbose quiet : Bool) : Console :=
  ⟨if verbose then .debug else if quiet then .warning else .info, verbose⟩

/-- An event in one line. -/
def line (c : Console) (e : Event) : String :=
  "[portgen] " ++ e.level.word ++ " " ++ (if c.withSpeaker then e.speaker.name ++ ": " else "")
    ++ e.message ++ "\n"

/-- The events that the console shows. -/
def shown (c : Console) (events : List Event) : List Event :=
  events.filter fun e => c.threshold.rank ≤ e.level.rank

/-- What the console shows of a run. -/
def display (c : Console) (events : List Event) : String :=
  String.join ((c.shown events).map c.line)

end Console

/-- A line of a log file, which begins with the time. -/
def Event.fileLine (time : String) (e : Event) : String :=
  time ++ " " ++ e.level.word ++ " " ++ e.speaker.name ++ ": " ++ e.message ++ "\n"

/-- What a log file takes of a run. -/
def fileLog (time : String) (events : List Event) : String :=
  String.join (events.map (·.fileLine time))

end BoundaryTypes
