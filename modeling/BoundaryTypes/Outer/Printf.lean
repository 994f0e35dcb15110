/-
  `Printf` — text made from a format and arguments.

  A format is copied to the output, except for escapes, which begin with a backslash,
  and directives, which begin with a percent sign and take an argument. A format that
  takes arguments is used again until none is left; a missing argument is empty.
-/
import BoundaryTypes.Command.Basic
import BoundaryTypes.Decimal.Numeral
import BoundaryTypes.Text.Hex

namespace BoundaryTypes.Command

/-- The byte that an escape of one letter stands for. -/
def escapeByte? (c : Char) : Option UInt8 :=
  ([('a', 7), ('b', 8), ('f', 12), ('n', 10), ('r', 13), ('t', 9), ('v', 11), ('\\', 92),
    ('"', 34)].find? fun p => p.1 == c).map (·.2)

/-- The bytes of one character. -/
def charBytes (c : Char) : List UInt8 := bytesOf (String.singleton c)

/-- A digit of base eight. -/
def isOctal (c : Char) : Bool := '0' ≤ c && c ≤ '7'

/-- The byte that digits of base eight spell. -/
def octalByte (digits : List Char) : UInt8 :=
  UInt8.ofNat (digits.foldl (fun n c => 8 * n + (c.toNat - 48)) 0)

/-- What an escape stands for, from after its backslash: its bytes, or `none` where the output ends,
and what follows it. `zeroFirst` says that digits of base eight begin with a zero of their own. -/
def readEscape (zeroFirst : Bool) : List Char → Option (List UInt8) × List Char
  | [] => (some [92], [])
  | 'c' :: rest => (none, rest)
  | 'x' :: rest =>
    let digits := (rest.take 2).takeWhile fun c => (Text.hexValue? c).isSome
    match Text.hexNumber? digits with
    | some n =>
      if digits.isEmpty then (some [92, 120], rest)
      else (some [UInt8.ofNat n], rest.drop digits.length)
    | none => (some [92, 120], rest)
  | c :: rest =>
    match escapeByte? c with
    | some b => (some [b], rest)
    | none =>
      if isOctal c then
        let digits := ((c :: rest).take (if zeroFirst && c == '0' then 4 else 3)).takeWhile isOctal
        (some [octalByte digits], (c :: rest).drop digits.length)
      else (some (92 :: charBytes c), rest)

/-- A text with its escapes replaced. Tells whether an escape ends the output. -/
def unescape (zeroFirst : Bool) : Nat → List Char → List UInt8 × Bool
  | 0, _ => ([], false)
  | _, [] => ([], false)
  | fuel + 1, '\\' :: rest =>
    match readEscape zeroFirst rest with
    | (none, _) => ([], true)
    | (some bytes, rest) =>
      let (more, ends) := unescape zeroFirst fuel rest
      (bytes ++ more, ends)
  | fuel + 1, c :: rest =>
    let (more, ends) := unescape zeroFirst fuel rest
    (charBytes c ++ more, ends)

/-- What a use of a format leaves. -/
structure Formatted where
  out : List UInt8
  /-- Arguments that were not taken. -/
  args : List String
  /-- Whether an escape ended the output. -/
  ends : Bool
  /-- Whether every number was one. -/
  sound : Bool

/-- One use of a format. -/
def formatOnce : Nat → List Char → List String → Formatted
  | 0, _, args => ⟨[], args, false, true⟩
  | _, [], args => ⟨[], args, false, true⟩
  | fuel + 1, c :: rest, args =>
    let andThen (bytes : List UInt8) (sound : Bool) (rest : List Char) (args : List String) :=
      let f := formatOnce fuel rest args
      { f with out := bytes ++ f.out, sound := sound && f.sound }
    let arg := args.headD ""
    if c = '\\' then
      match readEscape false rest with
      | (none, _) => ⟨[], args, true, true⟩
      | (some bytes, rest) => andThen bytes true rest args
    else if c = '%' then
      match rest with
      | '%' :: rest => andThen [37] true rest args
      | 's' :: rest => andThen (bytesOf arg) true rest (args.drop 1)
      | 'c' :: rest => andThen ((bytesOf arg).take 1) true rest (args.drop 1)
      | 'b' :: rest =>
        let (bytes, ends) := unescape true (arg.length + 1) arg.toList
        if ends then ⟨bytes, args.drop 1, true, true⟩ else andThen bytes true rest (args.drop 1)
      | d :: rest =>
        if d = 'd' ∨ d = 'i' then
          match Decimal.readInt? (if arg = "" then "0" else arg) with
          | some n => andThen (bytesOf (toString n)) true rest (args.drop 1)
          | none => andThen [48] false rest (args.drop 1)
        else andThen (37 :: charBytes d) true rest args
      | [] => andThen [37] true [] args
    else andThen (charBytes c) true rest args

/-- A format used until no argument is left. -/
def formatAll : Nat → List Char → List String → List UInt8 × Bool
  | 0, _, _ => ([], true)
  | fuel + 1, template, args =>
    let f := formatOnce (template.length + 1) template args
    -- A format that takes no arguments is used once, whatever is left.
    if f.ends || f.args.isEmpty || f.args.length = args.length then (f.out, f.sound)
    else
      let (more, sound) := formatAll fuel template f.args
      (f.out ++ more, f.sound && sound)

/-- The program `printf`. -/
def printf : List String → Finished
  | [] => .failing 1 "printf: missing operand\n"
  | template :: args =>
    let (out, sound) := formatAll (args.length + 1) template.toList args
    { out, status := .code (if sound then 0 else 1) }

end BoundaryTypes.Command
