/-
  `Flag` — the options and the commands of the command line.

  An option has a long name and perhaps a short one. It takes a value, or it stands for
  itself. A command knows some of the options; two of them may also stand in front of
  the command.
-/
import BoundaryTypes.Decimal.Numeral
import BoundaryTypes.Text.Display

namespace BoundaryTypes.CommandLine

/-- The options. -/
inductive Flag where
  | help
  | verbose
  | logFile
  | descriptor
  | moduleName
  | dryRun
  | host
  | port
deriving DecidableEq, Repr

namespace Flag

/-- The names of an option, the short one first. -/
def names : Flag → List String
  | .help => ["-h", "--help"]
  | .verbose => ["-v", "--verbose"]
  | .logFile => ["--log-file"]
  | .descriptor => ["--descriptor"]
  | .moduleName => ["--module"]
  | .dryRun => ["--dry-run"]
  | .host => ["--host"]
  | .port => ["--port"]

/-- Whether an option takes a value. -/
def takesValue : Flag → Bool
  | .help | .verbose | .dryRun => false
  | .logFile | .descriptor | .moduleName | .host | .port => true

/-- All names of an option in one text. -/
def label (f : Flag) : String := "/".intercalate f.names

/-- The options that may stand in front of a command. -/
def general : List Flag := [.help, .verbose, .logFile]

end Flag

/-- The commands. -/
inductive Command where
  | generate
  | preview
  | serve
deriving DecidableEq, Repr

namespace Command

/-- The word for a command. -/
def word : Command → String
  | .generate => "generate"
  | .preview => "show"
  | .serve => "serve"

/-- The commands in the order of their introduction. -/
def all : List Command := [.generate, .preview, .serve]

/-- The options of a command in the order of their introduction. -/
def flags : Command → List Flag
  | .generate => Flag.general ++ [.descriptor, .moduleName, .dryRun]
  | .preview => Flag.general ++ [.descriptor, .moduleName]
  | .serve => Flag.general ++ [.host, .port]

/-- The command for a word. -/
def ofWord? (s : String) : Option Command := all.find? fun c => c.word = s

end Command

/-- Why a command line cannot be understood. -/
inductive UsageFault where
  | ambiguous (word : String) (candidates : List String)
  | valueNotTaken (f : Flag) (value : String)
  | valueMissing (f : Flag)
  | notInteger (f : Flag) (value : String)
  | unknownCommand (word : String)
  | commandMissing
  | unrecognized (words : List String)
deriving DecidableEq, Repr

/-- The words for a command line that cannot be understood. -/
def UsageFault.message : UsageFault → String
  | .ambiguous word candidates =>
    "ambiguous option: " ++ word ++ " could match " ++ ", ".intercalate candidates
  | .valueNotTaken f value =>
    "argument " ++ f.label ++ ": ignored explicit argument " ++ Text.display value
  | .valueMissing f => "argument " ++ f.label ++ ": expected one argument"
  | .notInteger f value =>
    "argument " ++ f.label ++ ": invalid int value: " ++ Text.display value
  | .unknownCommand word =>
    "argument command: invalid choice: " ++ Text.display word ++ " (choose from "
      ++ ", ".intercalate (Command.all.map fun c => Text.display c.word) ++ ")"
  | .commandMissing => "the following arguments are required: command"
  | .unrecognized words => "unrecognized arguments: " ++ " ".intercalate words

end BoundaryTypes.CommandLine
