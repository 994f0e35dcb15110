/-
  `Performance` — a command line carried out.

  What a command does can be seen in its status, in what it prints and reports, on the
  disk, and in what it serves. Status 0 is success, 1 a failure of the run, 2 a command
  line that cannot be understood. The log file is there as soon as the run begins, and
  takes every event of it; a run that puts another file in its place leaves that one
  alone. Where a log file cannot be opened there is no run, and the failure is left to the
  caller. A process may carry out several command lines (`Process`); what it keeps from one
  to the next is the disk and its logger.
-/
import BoundaryTypes.CommandLine.Call
import BoundaryTypes.Logger

namespace BoundaryTypes.CommandLine

/-- The name of the program. -/
def programName : String := "portgen"

/-- The conditions under which a command line is carried out. -/
structure Conditions where
  host : Host
  /-- The time, as log files write it. -/
  time : String

/-- What can be seen of a command line that was carried out. -/
structure Performance where
  status : Nat
  out : String := ""
  err : String := ""
  disk : Disk
  /-- The interfaces and ports that were served. -/
  served : List (String × Int) := []
  /-- What was reported. -/
  records : List Event := []
  /-- The logger that is left. -/
  logger : Logger
  /-- A failure that nobody has met. -/
  escaped : Option Failure := none

/-! ### Usage -/

/-- The program with the command in which something was found. -/
def addressed : Option Command → String
  | none => programName
  | some c => programName ++ " " ++ c.word

/-- The options that can be used, in one line. -/
def usage (c : Option Command) : String :=
  let flags := (c.map Command.flags).getD Flag.general
  let tail := match c with
    | none => " \x7b" ++ ",".intercalate (Command.all.map Command.word) ++ "\x7d ..."
    | some .serve => ""
    | some _ => " [path]"
  let option (f : Flag) : String :=
    " [" ++ (f.names.headD "") ++ (if f.takesValue then " VALUE]" else "]")
  "usage: " ++ addressed c ++ String.join (flags.map option) ++ tail ++ "\n"

/-- What is seen when a command line does not lead to a call. -/
def Halt.performance (h : Halt) (logger : Logger) (d : Disk) : Performance :=
  match h.stop with
  | .help => { status := 0, out := usage h.command, disk := d, logger }
  | .fault f =>
    { status := 2, disk := d, logger
      err := usage h.command ++ addressed h.command ++ ": error: " ++ f.message ++ "\n" }

/-! ### Failures -/

/-- Whether a failure of a command is one that nobody foresees. -/
def isUnexpected (c : Command) : Failure → Bool
  | .value _ | .encoding _ => true
  | .system _ => c = .preview
  | _ => false

/-- The words for a failure of a command. -/
def failureText (c : Command) (failure : Failure) : String :=
  let plain := " failed: " ++ failure.message ++ "\nRun with --verbose for more details.\n"
  addressed (some c) ++
    match failure with
    | .type f => " failed at " ++ f.message ++ "\n"
    | .system f =>
      if c = .generate then " could not write declarations: " ++ f.message ++ "\n" else plain
    | _ => plain

/-! ### Commands -/

/-- What a command prints at its end. -/
def outcomeText (directory : Path) (o : Outcome) : String :=
  let file := (Path.relativeTo directory o.path).text
  match o.dryRun, o.changed with
  | true, true => "Declaration changes for " ++ file ++ " (dry-run):\n" ++ o.diff
  | true, false => file ++ " already up to date (dry-run)\n"
  | false, true => "Declarations written to " ++ file ++ "\n"
  | false, false => file ++ " already up to date\n"

/-- The command of a task. -/
def Task.command : Task → Command
  | .generate _ _ => .generate
  | .preview _ => .preview
  | .serve _ _ => .serve

/-- The run of a task, with what it prints at its end. -/
def Task.run {σ : Type} [RunState σ] (host : Host) : Task → RunOn σ String
  | .generate request dryRun => do
    pure (outcomeText host.directory (← Run.generate host request dryRun))
  | .preview request => Run.preview host request
  | .serve _ _ => pure ""

/-- The interfaces and ports that a task serves. -/
def Task.served : Task → List (String × Int)
  | .serve host port => [(host, port)]
  | _ => []

namespace Call

/-- What the console shows of a call. -/
def console (call : Call) : Console :=
  Console.ofOptions call.verbose (call.task.command = .preview)

/-- The log file of a call, opened. -/
def openLog (conditions : Conditions) (d : Disk) (call : Call) :
    Except Failure (Disk × Option LogFile) :=
  match call.logFile with
  | none => .ok (d, none)
  | some name => (LogFile.openIn conditions.host d name).map fun r => (r.1, some r.2)

/-- What is left of a disk on which the log file of a call cannot be opened. -/
def refused (conditions : Conditions) (d : Disk) (call : Call) : Disk :=
  (call.logFile.map (LogFile.refused conditions.host d)).getD d

/-- The events of a failure that nobody foresees; they are only reported when asked for. -/
def eventsOf (call : Call) (failure : Failure) : List Event :=
  if call.verbose && isUnexpected call.task.command failure then
    [.unexpected call.task.command.word]
  else []

/-- The logger and the disk with which the run of a call begins, where the logger may be left from
other runs. -/
def started (conditions : Conditions) (logger : Logger) (call : Call) (d : Disk)
    (log : Option LogFile) : Logged :=
  { disk := d, logger := logger.configured call.console log, time := conditions.time }

/-- What can be seen when the run of a call has ended. -/
def ended (call : Call) : EStateM.Result Failure Logged String → Performance
  | .ok out s =>
    { status := 0, out, err := s.shown, disk := s.disk, served := call.task.served
      records := s.records, logger := s.logger }
  | .error failure s =>
    let s := (call.eventsOf failure).foldl Logged.report s
    { status := 1, disk := s.disk, err := s.shown ++ failureText call.task.command failure
      records := s.records, logger := s.logger }

/-- Carries out a call in a process with a logger. -/
def perform (conditions : Conditions) (logger : Logger) (d : Disk) (call : Call) : Performance :=
  match call.openLog conditions d with
  | .error failure =>
    -- The logger takes everything by now, but only the console is there to show it.
    { status := 1, disk := call.refused conditions d, escaped := some failure
      logger := { logger.configured call.console none with threshold := .debug } }
  | .ok (d, log) =>
    call.ended (call.task.run conditions.host (call.started conditions logger d log))

end Call

/-- Carries out a command line in a process with a logger. -/
def performIn (conditions : Conditions) (logger : Logger) (d : Disk) (words : List String) :
    Performance :=
  match Call.ofWords words with
  | .error halt => halt.performance logger d
  | .ok call => call.perform conditions logger d

/-- Carries out a command line in a process of its own. -/
def perform (conditions : Conditions) (d : Disk) (words : List String) : Performance :=
  performIn conditions .initial d words

/-! ### Processes -/

/-- A command line with the conditions under which it is carried out. -/
structure Line where
  conditions : Conditions
  words : List String

/-- A process between two command lines. -/
structure Process where
  disk : Disk
  logger : Logger := .initial

namespace Process

/-- Carries out a command line. -/
def perform (p : Process) (l : Line) : Performance :=
  performIn l.conditions p.logger p.disk l.words

/-- A process after a command line. -/
def after (p : Process) (l : Line) : Process :=
  let q := p.perform l
  { disk := q.disk, logger := q.logger }

/-- A process after several command lines. -/
def afterAll (p : Process) (ls : List Line) : Process := ls.foldl after p

end Process

end BoundaryTypes.CommandLine
