/-
  `Program` — the programs that a command can name.

  Each program is a function of its arguments, of what it reads and of the directory
  that it works in. These stand in for the programs of a system.
-/
import BoundaryTypes.Outer.Printf
import BoundaryTypes.Disk.Text

namespace BoundaryTypes.Command

/-- What a program finds when it starts. -/
structure Surroundings where
  disk : Disk
  directory : Path
  /-- What stands ready at its input. -/
  input : List UInt8 := []

/-- A name in a report: between quotes when it holds more than plain characters. -/
def reportName (s : String) : String :=
  let plain (c : Char) := c.isAlphanum || "%+,-./:@_".contains c || 128 ≤ c.toNat
  if s ≠ "" && s.toList.all plain then s else "'" ++ s ++ "'"

/-- The program `cat`: files one after another. -/
def cat (s : Surroundings) (args : List String) : Finished :=
  let read (acc : Finished) (arg : String) : Finished :=
    if arg = "-" then { acc with out := acc.out ++ s.input }
    else
      match s.disk.readBytes (s.directory.joinText arg) with
      | .ok bytes => { acc with out := acc.out ++ bytes.toList }
      | .error f =>
        let report := "cat: " ++ reportName arg ++ ": " ++ f.cause.words ++ "\n"
        { acc with status := .code 1, err := acc.err ++ bytesOf report }
  (if args.isEmpty then ["-"] else args).foldl read {}

/-- The words of `echo` in one line. -/
def echoLine (newline : Bool) (args : List String) : List UInt8 :=
  bytesOf (" ".intercalate args) ++ if newline then [10] else []

/-- The program `echo`, which knows no escapes. -/
def echo : List String → Finished
  | "-n" :: args => { out := echoLine false args }
  | args => { out := echoLine true args }

/-- The command `echo` of a script, which replaces escapes. -/
def echoEscaped (args : List String) : Finished :=
  let (newline, words) := match args with
    | "-n" :: words => (false, words)
    | words => (true, words)
  let text := " ".intercalate words
  let (out, ends) := unescape true (text.length + 1) text.toList
  { out := out ++ if newline && !ends then [10] else [] }

/-- How many seconds a duration is. -/
def durationOf? (s : String) : Option Float :=
  let factor? := [('s', 1.0), ('m', 60.0), ('h', 3600.0), ('d', 86400.0)].find? fun p =>
    some p.1 == s.toList.getLast?
  match factor? with
  | some p => (Decimal.readFloat? (String.ofList s.toList.dropLast)).map (· * p.2)
  | none => Decimal.readFloat? s

/-- The program `sleep`. -/
def sleep (args : List String) : Finished :=
  match args.mapM durationOf? with
  | none => .failing 1 "sleep: invalid time interval\n"
  | some [] => .failing 1 "sleep: missing operand\n"
  | some durations => { seconds := durations.foldl (· + ·) 0.0 }

/-- What a program without a script does; `none` when there is no program of the name. -/
def program? (s : Surroundings) (name : String) (args : List String) : Option Finished :=
  match name with
  | "printf" => some (printf args)
  | "echo" => some (echo args)
  | "cat" => some (cat s args)
  | "true" => some {}
  | "false" => some { status := .code 1 }
  | "sleep" => some (sleep args)
  | "pwd" => some (.printing (s.directory.text ++ "\n"))
  | _ => none

end BoundaryTypes.Command
