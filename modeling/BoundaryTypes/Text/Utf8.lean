/-
  `Utf8` — bytes read as UTF-8, with the place and reason of the first fault.

  Well-formed bytes are read by core. When they are not well formed, the fault is
  found by a scan that takes one unit at a time: a whole character, or the longest
  beginning of one that the bytes offer. The scan also gives the lossy reading, in
  which every faulty unit becomes one U+FFFD.
-/
import BoundaryTypes.Text.Hex

namespace BoundaryTypes.Text

/-- Why a byte sequence is no character. -/
inductive Utf8Reason where
  | startByte
  | continuationByte
  | endOfData
deriving DecidableEq, Repr

/-- The first ill-formed unit: its first byte, where it begins and how many bytes it has. -/
structure Utf8Fault where
  byte : UInt8
  start : Nat
  length : Nat
  reason : Utf8Reason
deriving DecidableEq, Repr

/-- The words for a reason. -/
def Utf8Reason.message : Utf8Reason → String
  | .startByte => "invalid start byte"
  | .continuationByte => "invalid continuation byte"
  | .endOfData => "unexpected end of data"

/-- The message names the byte when the unit is one byte, and the span otherwise. -/
def Utf8Fault.message (f : Utf8Fault) : String :=
  let span :=
    if f.length = 1 then
      "byte 0x" ++ String.ofList (hexPadded 2 f.byte.toNat) ++ " in position " ++ toString f.start
    else
      "bytes in position " ++ toString f.start ++ "-" ++ toString (f.start + f.length - 1)
  "'utf-8' codec can't decode " ++ span ++ ": " ++ f.reason.message

namespace Utf8

/-- One unit of a scan: a character, or a fault; both with the bytes after the first. -/
inductive Unit where
  | character (c : Char) (more : Nat)
  | fault (reason : Utf8Reason) (more : Nat)

/-- How many bytes follow a start byte, the value it contributes, and the range of the second
byte. -/
def shape? (b : UInt8) : Option (Nat × Nat × Nat × Nat) :=
  if b < 0x80 then some (0, b.toNat, 0x80, 0xBF)
  else if b < 0xC2 then none
  else if b < 0xE0 then some (1, b.toNat - 0xC0, 0x80, 0xBF)
  else if b = 0xE0 then some (2, 0, 0xA0, 0xBF)
  else if b = 0xED then some (2, 0x0D, 0x80, 0x9F)
  else if b < 0xF0 then some (2, b.toNat - 0xE0, 0x80, 0xBF)
  else if b = 0xF0 then some (3, 0, 0x90, 0xBF)
  else if b < 0xF4 then some (3, b.toNat - 0xF0, 0x80, 0xBF)
  else if b = 0xF4 then some (3, 4, 0x80, 0x8F)
  else none

/-- The `need` bytes that continue a character; `low` and `high` bound the first of them. -/
def continuation (need taken value low high : Nat) : List UInt8 → Unit
  | [] => if need = 0 then .character (Char.ofNat value) taken else .fault .endOfData taken
  | b :: rest =>
    match need with
    | 0 => .character (Char.ofNat value) taken
    | need + 1 =>
      if low ≤ b.toNat ∧ b.toNat ≤ high then
        continuation need (taken + 1) (value * 64 + (b.toNat - 0x80)) 0x80 0xBF rest
      else .fault .continuationByte taken

/-- The unit that begins with `b`. -/
def unit (b : UInt8) (rest : List UInt8) : Unit :=
  match shape? b with
  | none => .fault .startByte 0
  | some (need, value, low, high) => continuation need 0 value low high rest

/-- The first fault in the bytes, the first of which has the position `start`. -/
def firstFault? (start : Nat) : List UInt8 → Option Utf8Fault
  | [] => none
  | b :: rest =>
    match unit b rest with
    | .character _ more => firstFault? (start + 1 + more) (rest.drop more)
    | .fault reason more => some ⟨b, start, 1 + more, reason⟩
termination_by bytes => bytes.length
decreasing_by simp only [List.length_cons, List.length_drop]; omega

/-- The characters of the bytes, each faulty unit read as U+FFFD. -/
def lossyChars : List UInt8 → List Char
  | [] => []
  | b :: rest =>
    match unit b rest with
    | .character c more => c :: lossyChars (rest.drop more)
    | .fault _ more => '\ufffd' :: lossyChars (rest.drop more)
termination_by bytes => bytes.length
decreasing_by all_goals (simp only [List.length_cons, List.length_drop]; omega)

/-- Reads bytes as text. -/
def decode (bytes : ByteArray) : Except Utf8Fault String :=
  match String.fromUTF8? bytes with
  | some s => .ok s
  | none => .error ((firstFault? 0 bytes.toList).getD ⟨0, 0, 1, .startByte⟩)

/-- Reads bytes as text, each faulty unit as U+FFFD. -/
def decodeLossy (bytes : ByteArray) : String :=
  match String.fromUTF8? bytes with
  | some s => s
  | none => String.ofList (lossyChars bytes.toList)

/-- What was written as UTF-8 reads back. -/
theorem decode_toUTF8 (s : String) : decode s.toUTF8 = .ok s := by
  have h : String.fromUTF8? s.toUTF8 = some s := dif_pos s.isValidUTF8
  simp only [decode, h]

/-- Bytes read as a text if they are those of the text. -/
theorem decode_eq_ok {bytes : ByteArray} {s : String} :
    decode bytes = .ok s ↔ bytes = s.toUTF8 := by
  constructor
  · intro h
    unfold decode String.fromUTF8? at h
    split at h
    · next t ht =>
      cases h
      split at ht
      · cases ht
        rfl
      · cases ht
    · cases h
  · rintro rfl
    exact decode_toUTF8 s

end Utf8

end BoundaryTypes.Text
