/-
  `Extraction` — the one message that an extractor prints.

  An extractor is a command that prints a module's message and nothing else. Blanks
  around the message do not count. An extractor that fails, that prints nothing, or that
  prints more than one message delivers none.
-/
import BoundaryTypes.Command.Basic
import BoundaryTypes.Descriptor
import BoundaryTypes.Disk.Text
import BoundaryTypes.Settings.Basic

namespace BoundaryTypes.Extraction

open Command

/-- How extractors are run: what an invocation prints. -/
abbrev Runner := Disk → Invocation → Except Failure String

/-- The text printed by a program, or why there is none. -/
def printed (v : Invocation) : Ending → Except Failure String
  | .notFound => .error (.extraction (.commandNotFound (v.args.headD "")))
  | .timedOut => .error (.extraction (.timedOut v.timeout))
  | .refused f => .error (.system f)
  | .unfit f => .error (.value f)
  | .exited status out err => do
    -- Both outputs must be text before the status counts.
    let out ← Disk.textOf ⟨out.toArray⟩
    let err ← Disk.textOf ⟨err.toArray⟩
    if status = .code 0 then pure out
    else throw (.extraction (.exited status.number (Text.stripBlank err)))

/-- The descriptor that an extractor's output holds. -/
def decode (fallback : Option String) (printed : String) : Except Failure Descriptor :=
  let text := Text.trimBlank printed.toList
  if text.isEmpty then .error (.extraction .noOutput)
  else
    match Json.readFirst text with
    | .error f => .error (.extraction (.notJson (f.locate text)))
    | .ok (v, rest) =>
      if (Text.trimBlank rest).isEmpty then (Descriptor.ofJson fallback v).mapError .type
      else .error (.extraction .moreThanOne)

/-- How an extractor is run in a project. -/
def invocation (s : ExtractorSettings) (project : Path) : Invocation :=
  ⟨s.command, s.directory.getD project, s.timeout⟩

/-- Reads a descriptor from a file. -/
def load (d : Disk) (fallback : Option String) (p : Path) : Except Failure Descriptor := do
  let text ← match d.readText p with
    | .error (.system ⟨.missing, _, _⟩) => throw (.extraction (.descriptorMissing p))
    | r => r
  (Descriptor.read fallback text).mapError .type

end BoundaryTypes.Extraction
