/-
  `Settings` — what a project asks for.

  Settings come from the mapping that the settings file holds. A setting of the wrong
  kind counts as missing, except the command of the extractor; a number counts as its
  text where text is asked for. Settings that were accepted name an output file by
  a name alone, limit the extractor's time by a positive number, and have names that a
  declaration file can use.
-/
import BoundaryTypes.Failure
import BoundaryTypes.Yaml.Survey

namespace BoundaryTypes

/-- How the extractor is run. -/
structure ExtractorSettings where
  command : List String := []
  /-- The directory it works in, when it is not the project's. -/
  directory : Option Path := none
  /-- How many seconds it may take. -/
  timeout : Float := 120.0

/-- The settings of a project. -/
structure Settings where
  /-- The directory of the project. -/
  root : Path
  /-- The directory of the sources, seen from the root. -/
  sourceRoot : Path := Path.ofText "src"
  moduleName : Option String := none
  outputName : String := "index.d.ts"
  descriptor : Option Path := none
  extractor : ExtractorSettings := {}
  names : NameOverrides := {}
  templates : Option Path := none

namespace Settings

/-- The file that holds the declarations of a module. -/
def outputPath (s : Settings) (segments : List String) : Path :=
  (segments.foldl Path.joinText (s.root.join s.sourceRoot)).joinText s.outputName

/-! ### Values of settings -/

/-- The text of a value: texts and numbers have one. -/
def textOf? : Yaml.Value → Option String
  | .text s => some s
  | .int n => some (toString n)
  | .float x => some (Decimal.natural x)
  | _ => none

/-- The text of a word in a list: truth values have one too. -/
def wordOf? : Yaml.Value → Option String
  | .bool b => some (if b then "True" else "False")
  | v => textOf? v

/-- The entries of a value that is a mapping; no entries otherwise. -/
def entriesOf : Option Yaml.Value → List (String × Yaml.Value)
  | some (.mapping entries) => entries
  | _ => []

/-- The value of an entry. -/
def value? (entries : List (String × Yaml.Value)) (key : String) : Option Yaml.Value :=
  (entries.find? fun e => e.1 = key).map (·.2)

/-- The text of an entry. -/
def text? (entries : List (String × Yaml.Value)) (key : String) : Option String :=
  (value? entries key).bind textOf?

/-- The text of an entry, unless it is empty. -/
def filled? (entries : List (String × Yaml.Value)) (key : String) : Option String :=
  (text? entries key).filter (· ≠ "")

/-- The words of a command: those of a command line, or the items of a list. -/
def commandOf : Option Yaml.Value → Except Failure (List String)
  | none | some .null => .ok []
  | some (.text s) => (Text.words s).mapError fun f => .value (.words f)
  | some (.list items) =>
    match items.mapM wordOf? with
    | some command => .ok command
    | none => .error (.settings .commandShape)
  | some _ => .error (.settings .commandShape)

/-- The seconds of a limit; text that is no number counts as missing. -/
def secondsOf : Option Yaml.Value → Except Failure (Option Float)
  | some (.int n) =>
    match Decimal.floatOfInt? n with
    | some x => .ok (some x)
    | none => .error (.value .integerBeyondFloats)
  | some (.float x) => .ok (some x)
  | some (.text s) => .ok (Decimal.readFloat? s)
  | _ => .ok none

/-- A limit must be positive. -/
def checkTimeout (seconds : Float) : Except Failure Float :=
  if seconds ≤ 0.0 then .error (.settings .timeoutNotPositive) else .ok seconds

/-- The settings of the extractor. -/
def extractorOf (root : Path) (entries : List (String × Yaml.Value)) :
    Except Failure ExtractorSettings := do
  let standard : ExtractorSettings := {}
  let command ← commandOf (value? entries "command")
  let directory := (filled? entries "cwd").map root.joinText
  let timeout ← match ← secondsOf (value? entries "timeout") with
    | none => pure standard.timeout
    | some seconds => checkTimeout seconds
  pure ⟨command, directory, timeout⟩

/-- The names of a declaration file, which must be usable. -/
def namesOf (entries : List (String × Yaml.Value)) : Except Failure NameOverrides :=
  let names : NameOverrides :=
    ⟨text? entries "message", text? entries "flags", text? entries "app", text? entries "root"⟩
  match names.resolve with
  | .ok _ => .ok names
  | .error f => .error (.settings (.names f))

/-- Whether a name is a path of more than one part. -/
def isPathName (name : String) : Bool := name.toList.any fun c => c == '/' || c == '\\'

/-- The settings that the entries of a settings file give. -/
def ofEntries (root : Path) (entries : List (String × Yaml.Value)) : Except Failure Settings := do
  let standard : Settings := { root }
  let outputName := (filled? entries "output_name").getD standard.outputName
  -- Faults come in this order: the output's name, the extractor, the names.
  if isPathName outputName then throw (.settings .outputNameIsPath)
  let extractor ← extractorOf root (entriesOf (value? entries "extractor"))
  let names ← namesOf (entriesOf (value? entries "names"))
  pure
    { root, outputName, extractor, names
      sourceRoot := ((filled? entries "source_root").map Path.ofText).getD standard.sourceRoot
      moduleName := text? entries "module"
      descriptor := (filled? entries "descriptor").map root.joinText
      templates := (filled? entries "templates_dir").map root.joinText }

/-- The settings that a value gives: a mapping, or nothing at all. -/
def ofValue (root : Path) (v : Yaml.Value) : Except Failure Settings :=
  if v.isNothing then ofEntries root []
  else
    match v with
    | .mapping entries => ofEntries root entries
    | _ => .error (.settings .notMapping)

/-- The fault of a YAML text as a failure: a malformed text makes the settings unusable. -/
def ofYamlFault : Yaml.Fault → Failure
  | .malformed => .settings .notYaml
  | f => .value (.yaml f)

/-- How deep settings nest: the file holds sections, and a section may hold a list. -/
def depth : Nat := 3

/-- The parser for settings, where no other is given. -/
def parser : Yaml.Parser := Yaml.Value.read depth

/-- The settings that the text of a settings file gives. -/
def ofText (root : Path) (text : String) (parser : Yaml.Parser := parser) :
    Except Failure Settings :=
  if (Text.stripBlank text).isEmpty then ofEntries root []
  else
    match parser text with
    | .ok v => ofValue root v
    | .error f => .error (ofYamlFault f)

end Settings

end BoundaryTypes
