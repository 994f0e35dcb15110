/-
  `Scan` — options and arguments told apart.

  A command line is read from left to right. An option takes the value that is attached
  to it, else the next word, which must be an argument. Short options that take no value
  may share one word. The place for arguments takes what it can hold as soon as it
  meets an argument: nothing, one argument, or a command with all the words behind
  it. What nothing takes is left over. The first fault ends the reading, and so does the
  option that asks for help.
-/
import BoundaryTypes.CommandLine.Word

namespace BoundaryTypes.CommandLine

/-- Why reading ends early. -/
inductive Stop where
  | help
  | fault (f : UsageFault)
deriving DecidableEq, Repr

/-- What the place for arguments can hold. -/
inductive Slot where
  | closed
  | argument
  | command
deriving DecidableEq, Repr

/-- What was read of a command line. -/
structure Scan where
  /-- The options with their values, in their order. -/
  given : List (Flag × String) := []
  /-- The words in the place for arguments. -/
  taken : List String := []
  leftOver : List String := []
deriving DecidableEq, Repr

namespace Scan

/-- The value that was given last to an option. -/
def value? (s : Scan) (f : Flag) : Option String :=
  (s.given.reverse.find? fun g => g.1 = f).map (·.2)

/-- Whether an option was given. -/
def has (s : Scan) (f : Flag) : Bool := (s.value? f).isSome

/-- Adds an option. Asking for help ends the reading, and the value must be one that the option
takes. -/
def add (s : Scan) (g : Flag × String) : Except Stop Scan :=
  match g.1 with
  | .help => .error .help
  | .port =>
    if (Decimal.readInt? g.2).isNone then .error (.fault (.notInteger .port g.2))
    else .ok { s with given := s.given ++ [g] }
  | _ => .ok { s with given := s.given ++ [g] }

/-- Leaves words over. -/
def leave (s : Scan) (words : List String) : Scan := { s with leftOver := s.leftOver ++ words }

end Scan

/-- The options that share a word. -/
structure Shared where
  /-- Those that are complete, with their values. -/
  given : List (Flag × String) := []
  /-- The last one, when its value must be the next word. -/
  waiting : Option Flag := none
  /-- What is left of the word behind the options. -/
  leftOver : List String := []

/-- An option in front of the others of its word. -/
def Shared.cons (f : Flag) (s : Shared) : Shared := { s with given := (f, "") :: s.given }

/-- The options in a word: `f` with nothing attached. -/
def sharedAlone (f : Flag) : Shared :=
  if f.takesValue then { waiting := some f } else { given := [(f, "")] }

/-- The options in a word: the short option `f` with letters attached, behind a `=` or not. -/
def sharedLetters (known : List Flag) (f : Flag) (bySign : Bool) :
    List Char → Except UsageFault Shared
  | [] =>
    if f.takesValue then .ok { given := [(f, "")] } else .error (.valueNotTaken f "")
  | c :: rest =>
    let text := String.ofList (c :: rest)
    if f.takesValue then .ok { given := [(f, text)] }
    else if bySign || c = '-' then .error (.valueNotTaken f text)
    else
      match named? known (String.ofList ['-', c]) with
      -- A letter that names no option is left over with those behind it.
      | none => .ok { given := [(f, "")], leftOver := ["-" ++ text] }
      | some g =>
        match rest with
        | [] => .ok (.cons f (sharedAlone g))
        | '=' :: value => (sharedLetters known g true value).map (.cons f)
        | d :: more => (sharedLetters known g false (d :: more)).map (.cons f)

/-- The options in a word that names one. -/
def sharedIn (known : List Flag) (n : Naming) : Except UsageFault Shared :=
  match n.attached with
  | none => .ok (sharedAlone n.flag)
  | some ⟨bySign, text⟩ =>
    if n.flag.takesValue then .ok { given := [(n.flag, String.ofList text)] }
    else if isShort n.name then sharedLetters known n.flag bySign text
    else .error (.valueNotTaken n.flag (String.ofList text))

/-- The words that a place takes from a list that does not begin with an option, with the rest;
`none` when it takes no word. -/
def takeWords (slot : Slot) (words : List (String × Role)) :
    Option (List String × List (String × Role)) :=
  match slot, words with
  -- A separator goes away together with the argument next to it.
  | .argument, (_, .separator) :: (word, .argument) :: rest => some ([word], rest)
  | .argument, (word, .argument) :: (_, .separator) :: rest => some ([word], rest)
  | .argument, (word, .argument) :: rest => some ([word], rest)
  | .argument, (_, .separator) :: rest => some ([], rest)
  | .command, (_, .separator) :: _ :: _ => some (words.map (·.1), [])
  | .command, (_, .argument) :: _ => some (words.map (·.1), [])
  | _, _ => none

theorem length_takeWords {slot : Slot} {words rest : List (String × Role)} {taken : List String}
    (h : takeWords slot words = some (taken, rest)) : rest.length < words.length := by
  unfold takeWords at h
  split at h <;> cases h <;> simp only [List.length_cons, List.length_nil] <;> omega

/-- Reads the words of a command line into a place for arguments. -/
def scanRoles (known : List Flag) (slot : Slot) (s : Scan) (words : List (String × Role)) :
    Except Stop Scan :=
  match words with
  | [] => .ok s
  | (word, .unknownOption) :: rest => scanRoles known slot (s.leave [word]) rest
  | (_, .option n) :: rest =>
    match sharedIn known n with
    | .error f => .error (.fault f)
    | .ok shared =>
      match shared.waiting, _hr : rest with
      | none, _ =>
        match shared.given.foldlM Scan.add (s.leave shared.leftOver) with
        | .error stop => .error stop
        | .ok s => scanRoles known slot s rest
      | some f, (value, .argument) :: behind =>
        match (shared.given ++ [(f, value)]).foldlM Scan.add s with
        | .error stop => .error stop
        | .ok s => scanRoles known slot s behind
      | some f, _ => .error (.fault (.valueMissing f))
  | (word, role) :: rest =>
    match _h : takeWords slot ((word, role) :: rest) with
    | some (taken, rest) => scanRoles known .closed { s with taken } rest
    | none => scanRoles known slot (s.leave [word]) rest
termination_by words.length
decreasing_by
  · simp only [List.length_cons]; omega
  · simp only [_hr, List.length_cons]; omega
  · simp only [List.length_cons]; omega
  · exact length_takeWords _h
  · simp only [List.length_cons]; omega

/-- Reads a command line. -/
def scan (known : List Flag) (slot : Slot) (words : List String) : Except Stop Scan :=
  match roles known words with
  | .error f => .error (.fault f)
  | .ok words => scanRoles known slot {} words

end BoundaryTypes.CommandLine
