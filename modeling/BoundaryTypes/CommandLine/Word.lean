/-
  `Word` — what a word of a command line is taken for.

  The word `--` separates: all words behind it are arguments. A word in front of it that
  begins with `-` is an option when it is the name of one, when it is the beginning of
  just one name, or when it is a short name with letters attached; the value of a long
  option may be attached with `=`. Other words that begin with `-` are unknown options,
  unless they are negative numbers or hold a space, or are `-` alone: those are
  arguments, like the words that do not begin with `-`.
-/
import BoundaryTypes.CommandLine.Flag
import BoundaryTypes.Text.Split

namespace BoundaryTypes.CommandLine

/-- What is attached to the name of an option. -/
structure Attachment where
  /-- Whether `=` stands between the name and the text. -/
  bySign : Bool
  text : List Char
deriving DecidableEq, Repr

/-- An option as a word names it. -/
structure Naming where
  flag : Flag
  /-- The name in full. -/
  name : String
  attached : Option Attachment
deriving DecidableEq, Repr

/-- What a word is taken for. -/
inductive Role where
  | argument
  | separator
  | option (n : Naming)
  | unknownOption
deriving DecidableEq, Repr

/-- The word that separates options from arguments. -/
def separatorWord : String := "--"

/-- Whether a name is a short one: a single letter. -/
def isShort (name : String) : Bool := name.toList.drop 1 |>.head? |>.any (· ≠ '-')

/-- The names of some options with their options. -/
def namesOf (known : List Flag) : List (String × Flag) :=
  known.flatMap fun f => f.names.map fun name => (name, f)

/-- The option with a name. -/
def named? (known : List Flag) (name : String) : Option Flag :=
  ((namesOf known).find? fun p => p.1 = name).map (·.2)

/-- The part of a word in front of its first `=`, and the part behind it if there is one. -/
def cutAtSign : List Char → List Char × Option (List Char)
  | [] => ([], none)
  | '=' :: rest => ([], some rest)
  | c :: rest =>
    let (front, back) := cutAtSign rest
    (c :: front, back)

/-- What a long word can stand for: the names that begin with the part in front of its `=`. -/
def longCandidates (known : List Flag) (word : List Char) : List Naming :=
  let (front, back) := cutAtSign word
  (namesOf known).filterMap fun (name, flag) =>
    if front.isPrefixOf name.toList then some ⟨flag, name, back.map fun t => ⟨true, t⟩⟩ else none

/-- What a word with one `-` can stand for: a short name with letters attached, or the beginning
of a name. -/
def shortCandidates (known : List Flag) (word : List Char) : List Naming :=
  (namesOf known).filterMap fun (name, flag) =>
    if name.toList = word.take 2 then some ⟨flag, name, some ⟨false, word.drop 2⟩⟩
    else if word.isPrefixOf name.toList then some ⟨flag, name, none⟩
    else none

/-- The option that a word names in full, perhaps with a value behind `=`. -/
def fullNaming? (known : List Flag) (word : List Char) : Option Naming :=
  match named? known (String.ofList word) with
  | some flag => some ⟨flag, String.ofList word, none⟩
  | none =>
    match cutAtSign word with
    | (_, none) => none
    | (front, some back) =>
      (named? known (String.ofList front)).map fun flag =>
        ⟨flag, String.ofList front, some ⟨true, back⟩⟩

/-- Whether all characters are decimal digits, of any script. -/
def allDigits (s : List Char) : Bool := s.all fun c => (Text.digitValue? c).isSome

/-- Whether a text is a negative number without exponent; a line end may follow it. -/
def isNegativeNumber (word : List Char) : Bool :=
  let body := word.drop 1
  let body := if body.getLast? = some '\n' then body.dropLast else body
  match Text.splitChars '.' body with
  | [whole] => whole ≠ [] && allDigits whole
  | [whole, places] => allDigits whole && places ≠ [] && allDigits places
  | _ => false

/-- What a word that begins with `-` is taken for. -/
def roleOfDashed (known : List Flag) (word : List Char) : Except UsageFault Role :=
  match fullNaming? known word with
  | some n => .ok (.option n)
  | none =>
    if word.length = 1 then .ok .argument
    else
      let candidates := if isShort (String.ofList word) then shortCandidates known word
        else longCandidates known word
      match candidates with
      | [n] => .ok (.option n)
      | [] =>
        -- Nothing that looks like a number or holds a space is an option.
        if isNegativeNumber word || word.contains ' ' then .ok .argument else .ok .unknownOption
      | many => .error (.ambiguous (String.ofList word) (many.map (·.name)))

/-- What a word in front of the separator is taken for. -/
def roleOf (known : List Flag) (word : String) : Except UsageFault Role :=
  match word.toList with
  | '-' :: rest => roleOfDashed known ('-' :: rest)
  | _ => .ok .argument

/-- The words of a command line with what they are taken for. -/
def roles (known : List Flag) : List String → Except UsageFault (List (String × Role))
  | [] => .ok []
  | word :: rest =>
    if word = separatorWord then
      .ok ((word, .separator) :: rest.map fun w => (w, .argument))
    else do
      let role ← roleOf known word
      pure ((word, role) :: (← roles known rest))

end BoundaryTypes.CommandLine
