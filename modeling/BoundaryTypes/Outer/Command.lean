/-
  `Command` — an invocation carried out by the programs that stand in for those of a system.

  A name without slash is looked for among the known programs, a name with one on the
  disk. The directory must exist before anything runs. A program that takes longer than its
  limit is stopped.
-/
import BoundaryTypes.Outer.Script

namespace BoundaryTypes.Command

/-- The directories of known programs. -/
def programDirectories : List String := ["/bin/", "/usr/bin/"]

/-- The name of a known program that a word names, with its directory or without. -/
def knownName (word : String) : String :=
  match programDirectories.find? fun d => d.toList.isPrefixOf word.toList with
  | some d => (word.drop d.length).toString
  | none => word

/-- What a program does; `none` when there is no program of the name. -/
def start? (s : Surroundings) (name : String) (args : List String) : Option Finished :=
  match name, args with
  | "sh", "-c" :: text :: _ => some (runScript (text.length + 1) s text)
  | "sh", [] => some (runScript 1 s "")
  | _, _ => program? s name args

/-- The bits of a mode that let a file be run. -/
def runnableBits : Nat := 0o111

/-- How a script on the disk begins. -/
def scriptMark : String := "#!/bin/sh\n"

/-- What becomes of a program on the disk. -/
def startFile (s : Surroundings) (word : String) : Except Ending Finished :=
  match s.disk.place (s.directory.joinText word) with
  | .error .missing => .error .notFound
  | .error cause => .error (.refused ⟨cause, word, none⟩)
  | .ok k =>
    match s.disk.entryAt? k with
    | none => .error .notFound
    | some .directory => .error (.refused ⟨.denied, word, none⟩)
    | some (.file bytes mode) =>
      if mode &&& runnableBits = 0 then .error (.refused ⟨.denied, word, none⟩)
      else
        match Text.Utf8.decode bytes with
        | .ok text =>
          if scriptMark.toList.isPrefixOf text.toList then
            .ok (runScript (text.length + 1) s (text.drop scriptMark.length).toString)
          else .error (.refused ⟨.badFormat, word, none⟩)
        | .error _ => .error (.refused ⟨.badFormat, word, none⟩)

/-- What becomes of a program in its directory. -/
def startWord (s : Surroundings) (word : String) (args : List String) : Except Ending Finished :=
  if word = "" then .error (.refused ⟨.denied, word, none⟩)
  else
    match start? s (knownName word) args with
    | some f => .ok f
    | none =>
      if word.toList.contains '/' then startFile s word
      else if Disk.nameLimit < word.utf8ByteSize then
        .error (.refused ⟨.nameTooLong, word, none⟩)
      else .error .notFound

/-- The most seconds that a limit can count. -/
def longestTimeout : Float := 2147483.647

/-- How long every program takes at least. -/
def leastSeconds : Float := 0.0001

/-- What becomes of a program that was started with a limit. -/
def finish (timeout : Float) (f : Finished) : Ending :=
  if timeout.isNaN then .unfit .timeoutNotNumber
  else if timeout.isInf then .unfit .timeoutInfinite
  else if longestTimeout < timeout then .unfit .timeoutTooLarge
  else if timeout < leastSeconds + f.seconds then .timedOut
  else .exited f.status f.out f.err

/-- Carries out an invocation. -/
def run (d : Disk) (v : Invocation) : Ending :=
  match v.args with
  | [] => .notFound
  | word :: args =>
    if v.args.any (·.toList.contains '\x00') || v.directory.hasNull then .unfit .nullCharacter
    else
      let refused (cause : SystemCause) : Ending := .refused ⟨cause, v.directory.text, none⟩
      match d.place v.directory with
      -- A missing directory cannot be told from a missing program.
      | .error .missing => .notFound
      | .error cause => refused cause
      | .ok k =>
        match d.entryAt? k with
        | none => .notFound
        | some (.file _ _) => refused .notDirectory
        | some .directory =>
          match startWord { disk := d, directory := v.directory } word args with
          | .ok f => finish v.timeout f
          | .error ending => ending

end BoundaryTypes.Command
