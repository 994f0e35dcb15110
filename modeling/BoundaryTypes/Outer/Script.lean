/-
  `Script` — short scripts of commands.

  A script is a list of commands, separated by semicolons and line ends, or joined so
  that one runs only after the other has succeeded (`&&`) or failed (`||`), or so that one
  reads what the other writes (`|`). Words are put together from plain and quoted text,
  `$$` and `$?`. A command may send its outputs elsewhere, but no script writes files.
-/
import BoundaryTypes.Outer.Program

namespace BoundaryTypes.Command

/-! ### Parts of a script -/

/-- A part of a word. -/
inductive Piece where
  | text (s : List Char)
  /-- The number of the script's process. -/
  | processNumber
  /-- The status of the command before. -/
  | lastStatus
deriving DecidableEq, Repr

/-- Where an output is sent, or an input taken from. -/
inductive Redirect where
  | copy (output source : Nat)
  | discard (output : Nat)
  | input (name : List Piece)
deriving DecidableEq, Repr

/-- The units of a script. -/
inductive Lexeme where
  | word (pieces : List Piece)
  | redirect (r : Redirect)
  | separator
  | lineEnd
  | andThen
  | orElse
  | pipe
deriving DecidableEq, Repr

/-- A command with the line it stands in. -/
structure Simple where
  line : Nat
  words : List (List Piece) := []
  redirects : List Redirect := []

/-- When a pipeline runs. -/
inductive Condition where
  | always
  | onSuccess
  | onFailure
deriving DecidableEq, Repr

/-- Commands of which each reads what the one before writes. -/
structure Pipeline where
  condition : Condition
  commands : List Simple

/-! ### Reading -/

/-- A character of text at the end of a word. -/
def appendChar (pieces : List Piece) (c : Char) : List Piece :=
  match pieces.getLast? with
  | some (.text s) => pieces.dropLast ++ [.text (s ++ [c])]
  | _ => pieces ++ [.text [c]]

/-- What follows a dollar sign, and what it stands for. -/
def readDollar : List Char → List Piece × List Char
  | '$' :: rest => ([.processNumber], rest)
  | '?' :: rest => ([.lastStatus], rest)
  | rest => ([.text ['$']], rest)

/-- The word at the front of a text and what follows it; `none` when a quote is not closed. -/
def readWord (double : Bool) : Nat → List Piece → List Char → Option (List Piece × List Char)
  | 0, _, _ => none
  | fuel + 1, pieces, s =>
    match s with
    | [] => if double then none else some (pieces, [])
    | '$' :: rest =>
      let (more, rest) := readDollar rest
      readWord double fuel (pieces ++ more) rest
    | '"' :: rest => readWord (!double) fuel (pieces ++ [.text []]) rest
    | '\\' :: x :: rest =>
      -- Between double quotes a backslash stays where it takes away no meaning.
      if double && !("\"\\$\x60\n".contains x) then
        readWord double fuel (appendChar (appendChar pieces '\\') x) rest
      else if x = '\n' then readWord double fuel pieces rest
      else readWord double fuel (appendChar pieces x) rest
    | c :: rest =>
      if double then readWord double fuel (appendChar pieces c) rest
      else if c = '\'' then
        let quoted := rest.takeWhile (· != '\'')
        match rest.drop quoted.length with
        | [] => none
        | _ :: rest => readWord double fuel (pieces ++ [.text quoted]) rest
      else if " \t\n;&|<>".contains c then some (pieces, s)
      else readWord double fuel (appendChar pieces c) rest

/-- The redirection of an output, from after its sign. -/
def readRedirect (output : Nat) (s : List Char) : Option (Redirect × List Char) :=
  match s with
  | '&' :: c :: rest => if c.isDigit then some (.copy output (c.toNat - 48), rest) else none
  | _ =>
    let s := s.dropWhile fun c => c == '>' || c == ' '
    match readWord false (s.length + 1) [] s with
    | some ([], _) | none => none
    | some (_, rest) => some (.discard output, rest)

/-- The units of a script; `none` when it is malformed. -/
def readLexemes : Nat → List Char → Option (List Lexeme)
  | 0, _ => none
  | fuel + 1, s =>
    let next (l : Lexeme) (rest : List Char) := (readLexemes fuel rest).map (l :: ·)
    match s with
    | [] => some []
    | '&' :: '&' :: rest => next .andThen rest
    | '|' :: '|' :: rest => next .orElse rest
    | '1' :: '>' :: rest => (readRedirect 1 rest).bind fun r => next (.redirect r.1) r.2
    | '2' :: '>' :: rest => (readRedirect 2 rest).bind fun r => next (.redirect r.1) r.2
    | '>' :: rest => (readRedirect 1 rest).bind fun r => next (.redirect r.1) r.2
    | '<' :: rest =>
      let rest := rest.dropWhile (· == ' ')
      (readWord false (rest.length + 1) [] rest).bind fun r => next (.redirect (.input r.1)) r.2
    | c :: rest =>
      if c = ' ' ∨ c = '\t' then readLexemes fuel rest
      else if c = '\n' then next .lineEnd rest
      else if c = ';' ∨ c = '&' then next .separator rest
      else if c = '|' then next .pipe rest
      else if c = '#' then readLexemes fuel (rest.dropWhile (· != '\n'))
      else (readWord false (s.length + 1) [] s).bind fun r => next (.word r.1) r.2

/-- The pipelines of a script; `done` are the commands of the pipeline that has begun, and `current`
is the command that has begun. -/
def gather (condition : Condition) (done : List Simple) (current : Simple) :
    List Lexeme → List Pipeline
  | [] => [⟨condition, done ++ [current]⟩]
  | .word w :: rest => gather condition done { current with words := current.words ++ [w] } rest
  | .redirect r :: rest =>
    gather condition done { current with redirects := current.redirects ++ [r] } rest
  | .pipe :: rest => gather condition (done ++ [current]) { line := current.line } rest
  | .andThen :: rest =>
    ⟨condition, done ++ [current]⟩ :: gather .onSuccess [] { line := current.line } rest
  | .orElse :: rest =>
    ⟨condition, done ++ [current]⟩ :: gather .onFailure [] { line := current.line } rest
  | .separator :: rest =>
    ⟨condition, done ++ [current]⟩ :: gather .always [] { line := current.line } rest
  | .lineEnd :: rest =>
    ⟨condition, done ++ [current]⟩ :: gather .always [] { line := current.line + 1 } rest

/-! ### Running -/

/-- What a script has done so far. -/
structure Progress where
  status : Status := .code 0
  /-- Whether the script has ended. -/
  ended : Bool := false
  out : List UInt8 := []
  err : List UInt8 := []
  seconds : Float := 0.0

/-- The number of the script's process. -/
def scriptNumber : String := "1"

/-- The text of a word. -/
def wordText (last : Status) (pieces : List Piece) : String :=
  String.join (pieces.map fun p => match p with
    | .text s => String.ofList s
    | .processNumber => scriptNumber
    | .lastStatus => toString last.seen)

/-- The numbers of signals that have names. -/
def signals : List (String × Nat) :=
  [("HUP", 1), ("INT", 2), ("QUIT", 3), ("ABRT", 6), ("KILL", 9), ("USR1", 10), ("SEGV", 11),
   ("USR2", 12), ("PIPE", 13), ("ALRM", 14), ("TERM", 15)]

/-- The signal that a word names or numbers. -/
def signalOf? (s : String) : Option Nat :=
  match signals.find? fun p => p.1 = s ∨ "SIG" ++ p.1 = s with
  | some p => some p.2
  | none => s.toNat?

/-- The signal that a script sends to itself. -/
def ownSignal? : List String → Option Nat
  | [target] => if target = scriptNumber then some 15 else none
  | ["-s", name, target] => if target = scriptNumber then signalOf? name else none
  | [option, target] =>
    if target = scriptNumber ∧ option.startsWith "-" then signalOf? (option.drop 1).toString
    else none
  | _ => none

/-- A report of the script itself. -/
def scriptReport (line : Nat) (words : String) : String :=
  "sh: " ++ toString line ++ ": " ++ words ++ "\n"

/-- What a command does, and whether it ends the script. `script` runs a script inside this one. -/
def runWords (script : Surroundings → String → Finished) (s : Surroundings) (last : Status)
    (line : Nat) : List String → Finished × Bool
  | [] => ({}, false)
  | name :: args =>
    match name, args with
    | ":", _ => ({}, false)
    | "exit", [] => ({ status := last }, true)
    | "exit", n :: _ => ({ status := .code ((n.toNat?.getD 2) % 256) }, true)
    | "echo", _ => (echoEscaped args, false)
    | "sh", "-c" :: text :: _ => (script s text, false)
    | "kill", _ =>
      match ownSignal? args with
      | some 0 => ({}, false)
      | some n => ({ status := .signal n }, true)
      | none => (.failing 1 (scriptReport line "kill: No such process"), false)
    | _, _ =>
      match program? s name args with
      | some f => (f, false)
      | none => (.failing 127 (scriptReport line (name ++ ": not found")), false)

/-- Where the two outputs go after redirections: to an output, or nowhere (`0`). -/
def targets (redirects : List Redirect) : Nat × Nat :=
  redirects.foldl (fun (t : Nat × Nat) r =>
    let seen (n : Nat) := if n = 1 then t.1 else if n = 2 then t.2 else 0
    match r with
    | .copy output source => if output = 1 then (seen source, t.2) else (t.1, seen source)
    | .discard output => if output = 1 then (0, t.2) else (t.1, 0)
    | .input _ => t) (1, 2)

/-- What arrives at an output. -/
def arriving (output : Nat) (t : Nat × Nat) (f : Finished) : List UInt8 :=
  (if t.1 = output then f.out else []) ++ if t.2 = output then f.err else []

/-- The input of a command after redirections; `none` when a file cannot be read. -/
def inputOf (s : Surroundings) (last : Status) (redirects : List Redirect) :
    Except String (List UInt8) :=
  redirects.foldlM (fun input r =>
    match r with
    | .input name =>
      let name := wordText last name
      match s.disk.readBytes (s.directory.joinText name) with
      | .ok bytes => .ok bytes.toList
      | .error _ => .error name
    | _ => .ok input) s.input

/-- Runs a command, and tells whether it ends the script. -/
def runSimple (script : Surroundings → String → Finished) (s : Surroundings) (last : Status)
    (c : Simple) : Finished × Bool :=
  match inputOf s last c.redirects with
  | .error name =>
    (.failing 2 (scriptReport c.line ("cannot open " ++ name ++ ": No such file")), false)
  | .ok input =>
    let words := c.words.map (wordText last)
    let (f, ends) := runWords script { s with input } last c.line words
    let t := targets c.redirects
    ({ f with out := arriving 1 t f, err := arriving 2 t f }, ends)

/-- Runs the commands of a pipeline, each with the output of the one before as input. -/
def runPipeline (script : Surroundings → String → Finished) (s : Surroundings) (last : Status) :
    List Simple → Finished × Bool
  | [] => ({}, false)
  | [c] => runSimple script s last c
  | c :: rest =>
    -- Only the last command of a pipeline decides how it ends.
    let (f, _) := runSimple script s last c
    let (g, _) := runPipeline script { s with input := f.out } last rest
    ({ g with err := f.err ++ g.err, seconds := f.seconds + g.seconds }, false)

/-- Whether a pipeline runs after a status. -/
def Condition.holds (last : Status) : Condition → Bool
  | .always => true
  | .onSuccess => last.seen == 0
  | .onFailure => last.seen != 0

/-- Runs a pipeline after what was done before. -/
def runNext (script : Surroundings → String → Finished) (s : Surroundings) (p : Progress)
    (pipeline : Pipeline) : Progress :=
  let isEmpty := pipeline.commands.all fun c => c.words.isEmpty && c.redirects.isEmpty
  if p.ended || isEmpty || !pipeline.condition.holds p.status then p
  else
    let (f, ends) := runPipeline script s p.status pipeline.commands
    ⟨f.status, ends, p.out ++ f.out, p.err ++ f.err, p.seconds + f.seconds⟩

/-- Runs a script; `depth` bounds how deep scripts stand in scripts. -/
def runScript : Nat → Surroundings → String → Finished
  | 0, _, _ => {}
  | depth + 1, s, text =>
    match readLexemes (text.length + 1) text.toList with
    | none => .failing 2 (scriptReport 1 "Syntax error: Unterminated quoted string")
    | some lexemes =>
      let p := (gather .always [] { line := 1 } lexemes).foldl (runNext (runScript depth) s) {}
      ⟨p.status, p.out, p.err, p.seconds⟩

end BoundaryTypes.Command
