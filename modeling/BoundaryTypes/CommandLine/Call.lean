/-
  `Call` — what a command line asks for.

  A command line is read twice: the words up to the command with the general options, the
  words behind the command with the options of the command. An option that may stand in
  both places counts from behind the command when it is given there. Words that
  nothing takes are refused at the very end, those in front of the command first.
-/
import BoundaryTypes.CommandLine.Scan
import BoundaryTypes.Run

namespace BoundaryTypes.CommandLine

/-- What a command is to do. -/
inductive Task where
  | generate (request : Request) (dryRun : Bool)
  | preview (request : Request)
  | serve (host : String) (port : Int)
deriving DecidableEq

/-- A command line that was understood. -/
structure Call where
  verbose : Bool
  /-- The file that takes the events. -/
  logFile : Option String
  task : Task
deriving DecidableEq

/-- Why a command line does not lead to a call, and in which command that was found. -/
structure Halt where
  command : Option Command
  stop : Stop
deriving DecidableEq, Repr

/-- The interface that is served when none is given. -/
def standardHost : String := "127.0.0.1"

/-- The port that is served when none is given. -/
def standardPort : Int := 8000

namespace Call

/-- What the place for arguments of a command can hold. -/
def slotOf : Command → Slot
  | .generate | .preview => .argument
  | .serve => .closed

/-- The request of a command line. -/
def requestOf (s : Scan) : Request where
  path := s.taken.headD "."
  descriptor := s.value? .descriptor
  moduleName := s.value? .moduleName

/-- The task of a command with its options. -/
def taskOf (s : Scan) : Command → Task
  | .generate => .generate (requestOf s) (s.has .dryRun)
  | .preview => .preview (requestOf s)
  | .serve =>
    .serve ((s.value? .host).getD standardHost)
      (((s.value? .port).bind Decimal.readInt?).getD standardPort)

/-- The call of a command line whose command is known. -/
def ofScans (front behind : Scan) (c : Command) : Except Halt Call :=
  -- Every other fault is reported before words that nothing takes.
  match front.leftOver ++ behind.leftOver with
  | [] =>
    .ok
      { verbose := front.has .verbose || behind.has .verbose
        logFile := ((behind.value? .logFile).or (front.value? .logFile)).filter (· ≠ "")
        task := taskOf behind c }
  | words => .error ⟨none, .fault (.unrecognized words)⟩

/-- The call that a command line asks for. -/
def ofWords (words : List String) : Except Halt Call :=
  match scan Flag.general .command words with
  | .error stop => .error ⟨none, stop⟩
  | .ok front =>
    match front.taken with
    | [] => .error ⟨none, .fault .commandMissing⟩
    | word :: rest =>
      match Command.ofWord? word with
      | none => .error ⟨none, .fault (.unknownCommand word)⟩
      | some c =>
        match scan c.flags (slotOf c) rest with
        | .error stop => .error ⟨some c, stop⟩
        | .ok behind => ofScans front behind c

end Call

end BoundaryTypes.CommandLine
