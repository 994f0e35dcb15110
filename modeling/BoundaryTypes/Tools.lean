/-
  `Tools` — the programs that a run relies on.

  An extractor, the engine of templates and the parser of YAML texts are the work of
  others. A run takes them as they are given: of the tools it is only known that they
  answer without effects, that a parser answers from its text alone, and that an engine
  learns of the disk what it asks for. Stand-ins serve where no others are given.
-/
import BoundaryTypes.Extraction
import BoundaryTypes.Template

namespace BoundaryTypes

/-- What a run relies on. -/
structure Tools where
  runner : Extraction.Runner
  engine : TemplateEngine := .copying
  parser : Yaml.Parser := Settings.parser

/-- With a runner come the stand-ins for the other tools. -/
instance : Coe Extraction.Runner Tools where
  coe runner := { runner }

end BoundaryTypes
