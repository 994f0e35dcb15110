/-
  `Text` — files read as text.

  Text files are UTF-8. Every `\r\n` and every other `\r` of a file reads as `\n`; a byte
  order mark is a character like others. A name with NUL is refused before the disk is
  asked.
-/
import BoundaryTypes.Failure
import BoundaryTypes.Text.Lines

namespace BoundaryTypes

namespace Failure

/-- An outcome of a system call as the outcome of a step of a run. -/
def ofSystem {α : Type} (r : Except SystemFault α) : Except Failure α := r.mapError .system

/-- Refuses a name that no file can have. -/
def checkName (p : Path) : Except Failure Unit :=
  if p.hasNull then .error (.value .nullCharacter) else .ok ()

end Failure

namespace Disk

/-- The text that bytes hold, with uniform line ends. -/
def textOf (bytes : ByteArray) : Except Failure String :=
  ((Text.Utf8.decode bytes).mapError Failure.encoding).map Text.withUniformLineEnds

/-- The text of the file that a path leads to. -/
def readText (d : Disk) (p : Path) : Except Failure String := do
  Failure.checkName p
  textOf (← Failure.ofSystem (d.readBytes p))

/-- The text of a file that may be missing; then it is empty. -/
def readExisting (d : Disk) (p : Path) : Except Failure String :=
  match d.readText p with
  | .error (.system ⟨.missing, _, _⟩) => .ok ""
  | r => r

end Disk

end BoundaryTypes
