/-
  `Failure` — why a run ends without a result.

  A run fails because its settings cannot be used, because the extractor does not
  deliver one message, because a type is refused, because the system refuses a call,
  because a file is no UTF-8, or because a value is none of those that an operation
  takes. Each kind keeps its cause, and the words for it are made in one place.
-/
import BoundaryTypes.Decimal.Layout
import BoundaryTypes.Disk.Basic
import BoundaryTypes.Names
import BoundaryTypes.Text.Utf8
import BoundaryTypes.Text.Words
import BoundaryTypes.TypeFault
import BoundaryTypes.Yaml.Time

namespace BoundaryTypes

/-- The name of the file that holds the settings of a project. -/
def settingsFileName : String := ".portgen.yml"

/-- Why settings cannot be used. -/
inductive SettingsFault where
  | notYaml
  | notMapping
  | outputNameIsPath
  | timeoutNotPositive
  | commandShape
  | names (f : NamesFault)
deriving DecidableEq, Repr

/-- The words for unusable settings. -/
def SettingsFault.message : SettingsFault → String
  | .notYaml => "Failed to parse " ++ settingsFileName
  | .notMapping => settingsFileName ++ " must contain a mapping at the root"
  | .outputNameIsPath => "output_name must be a file name, not a path"
  | .timeoutNotPositive => "extractor.timeout must be positive"
  | .commandShape => "extractor.command must be a string or a list of strings"
  | .names f => f.message

/-- Why there is no message to work on. -/
inductive ExtractionFault where
  | noCommand
  | noOutput
  | notJson (problem : Json.Problem)
  | moreThanOne
  | commandNotFound (command : String)
  | timedOut (seconds : Float)
  | exited (status : Int) (report : String)
  | descriptorMissing (path : Path)
  | noSource
deriving Repr

/-- The words for a missing message. -/
def ExtractionFault.message : ExtractionFault → String
  | .noCommand => "No extractor command configured (set extractor.command or pass --descriptor)"
  | .noOutput => "Extractor produced no output"
  | .notJson problem => "Extractor output is not a JSON message: " ++ problem.message
  | .moreThanOne => "Extractor emitted more than one message"
  | .commandNotFound command => "Extractor command not found: " ++ command
  | .timedOut seconds => "Extractor timed out after " ++ Decimal.general seconds ++ "s"
  | .exited status report =>
    "Extractor exited with status " ++ toString status
      ++ if report = "" then "" else ": " ++ report
  | .descriptorMissing path => "Descriptor file not found: " ++ path.text
  | .noSource =>
    "No descriptor source: pass --descriptor or configure extractor.command in " ++ settingsFileName

/-- Why an operation cannot take a value. -/
inductive ValueFault where
  | yaml (f : Yaml.Fault)
  | words (f : Text.WordsFault)
  | emptyDeclaration (path : Path)
  | nullCharacter
  | integerBeyondFloats
  | timeoutNotNumber
  | timeoutInfinite
  | timeoutTooLarge
  /-- A template cannot be rendered; what is wrong is told by the engine. -/
  | template (report : String)
deriving DecidableEq, Repr

/-- The words for a point in time whose part lies out of its range. -/
def timeMessage (part : Yaml.TimePart) (value : Nat) : String :=
  match part with
  | .year => "year " ++ toString value ++ " is out of range"
  | .month => "month must be in 1..12"
  | .day => "day is out of range for month"
  | .hour => "hour must be in 0..23"
  | .minute => "minute must be in 0..59"
  | .second => "second must be in 0..59"

/-- The words for a distance of minutes: whole days, which may be negative, and the seconds that are
left, when there are any. -/
def distanceMessage (minutes : Int) : String :=
  let days := minutes.fdiv Yaml.minutesOfDay
  let seconds := 60 * minutes.fmod Yaml.minutesOfDay
  "datetime.timedelta(days=" ++ toString days
    ++ (if seconds = 0 then "" else ", seconds=" ++ toString seconds) ++ ")"

/-- The words for a text that is no integer show at most this many characters of it, quotes
included. -/
def shownCharacters : Nat := 200

/-- The words for a weight that no double can hold. -/
def beyondFloatsMessage : String := "int too large to convert to float"

/-- The words for a YAML text that cannot be read. -/
def yamlMessage : Yaml.Fault → String
  | .malformed => SettingsFault.notYaml.message
  | .notInteger base text =>
    "invalid literal for int() with base " ++ toString base ++ ": "
      ++ String.ofList ((Text.displayChars text.toList).take shownCharacters)
  | .notNumber text => "could not convert string to float: " ++ Text.display text
  | .integerBeyondFloats => beyondFloatsMessage
  | .notTruthValue text => Text.display text
  | .noDigits => "string index out of range"
  | .notTime => "'NoneType' object has no attribute 'groupdict'"
  | .noTimeText => "expected string or bytes-like object, got 'list'"
  | .noCharacter => "chr() arg not in range(0x110000)"
  | .codeTooLarge => "Python int too large to convert to C int"
  | .endlessText => "maximum recursion depth exceeded"
  | .zoneTooFar minutes =>
    "offset must be a timedelta strictly between -timedelta(hours=24) and timedelta(hours=24), not "
      ++ distanceMessage minutes ++ "."
  | .outOfRange part value => timeMessage part value

/-- The words for a value that an operation cannot take. -/
def ValueFault.message : ValueFault → String
  | .yaml f => yamlMessage f
  | .words .unclosedQuote => "No closing quotation"
  | .words .nothingEscaped => "No escaped character"
  | .emptyDeclaration path => "Refusing to write an empty declaration to " ++ path.text
  | .nullCharacter => "embedded null byte"
  | .integerBeyondFloats => beyondFloatsMessage
  | .timeoutNotNumber => "cannot convert float NaN to integer"
  | .timeoutInfinite => "cannot convert float infinity to integer"
  | .timeoutTooLarge => "timeout is too large"
  | .template report => report

/-- Why a run ends without a result. -/
inductive Failure where
  | settings (f : SettingsFault)
  | extraction (f : ExtractionFault)
  | type (f : TypeFault)
  | system (f : SystemFault)
  | encoding (f : Text.Utf8Fault)
  | value (f : ValueFault)

/-- The words for a failure. -/
def Failure.message : Failure → String
  | .settings f => f.message
  | .extraction f => f.message
  | .type f => f.message
  | .system f => f.message
  | .encoding f => f.message
  | .value f => f.message

end BoundaryTypes
