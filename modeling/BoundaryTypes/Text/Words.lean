/-
  `Words` — a command line cut into words.

  Words are separated by spaces, tabs and line ends. Quotes hold words together: between
  single quotes every character stands for itself, between double quotes a backslash
  takes away the meaning of a double quote or backslash after it, and elsewhere of any
  character. Quotes with nothing between them are an empty word.
-/

namespace BoundaryTypes.Text

/-- Why a text has no words. -/
inductive WordsFault where
  | unclosedQuote
  | nothingEscaped
deriving DecidableEq, Repr

/-- A character between words. -/
def separatesWords (c : Char) : Bool := c == ' ' || c == '\t' || c == '\r' || c == '\n'

/-- What stands around a character of a command line. -/
inductive Quoting where
  | none
  | single
  | double
deriving DecidableEq, Repr

/-- The words of a text. `word` is the word that has begun, if one has. -/
def wordsFrom (quoting : Quoting) (word : Option (List Char)) :
    List Char → Except WordsFault (List (List Char))
  | [] => if quoting = .none then .ok word.toList else .error .unclosedQuote
  | c :: rest =>
    let grown (cs : List Char) := some (word.getD [] ++ cs)
    match quoting with
    | .none =>
      if separatesWords c then (wordsFrom .none none rest).map (word.toList ++ ·)
      else if c = '\'' then wordsFrom .single (grown []) rest
      else if c = '"' then wordsFrom .double (grown []) rest
      else if c = '\\' then
        match rest with
        | [] => .error .nothingEscaped
        | x :: rest => wordsFrom .none (grown [x]) rest
      else wordsFrom .none (grown [c]) rest
    | .single =>
      if c = '\'' then wordsFrom .none (grown []) rest else wordsFrom .single (grown [c]) rest
    | .double =>
      if c = '"' then wordsFrom .none (grown []) rest
      else if c = '\\' then
        match rest with
        | [] => .error .nothingEscaped
        | x :: rest =>
          wordsFrom .double (grown (if x = '"' ∨ x = '\\' then [x] else ['\\', x])) rest
      else wordsFrom .double (grown [c]) rest

/-- The words of a command line. -/
def words (s : String) : Except WordsFault (List String) :=
  (wordsFrom .none none s.toList).map (·.map String.ofList)

end BoundaryTypes.Text
