/-
  `Template` — the template that lays a declaration file out.

  The standard template is known (`DeclarationFile.render`). A project may put one of its own
  into a directory of templates, and an engine renders it. What an engine makes of a source
  is not said here: it is a parameter, and what is proved of runs holds for every engine.
  On its way an engine may take in other templates of the directory by their names, which
  is all that it learns of the disk. A rendering has no effects and ends, with a text
  or with a report of what is wrong with the template.
-/
import BoundaryTypes.DeclarationFile
import BoundaryTypes.Disk.Text

namespace BoundaryTypes

/-- What a template may mention. -/
structure TemplateVariables where
  /-- The texts of the bindings. -/
  declarations : List String
  messageName : String
  appName : String
  rootName : String
  flagsType : String
  segments : List String

/-- What a template may mention of a declaration file. -/
def DeclarationFile.variables (f : DeclarationFile) : TemplateVariables where
  declarations := f.declarations.map (·.text)
  messageName := f.names.message
  appName := f.names.app
  rootName := f.names.root
  flagsType := f.flagsType
  segments := f.segments

/-- A rendering under way: it is done, well or not, or asks for the source of another template and
goes on with what it gets. -/
inductive Rendering where
  | done (text : Except String String)
  | ask (name : String) (next : Option String → Rendering)

/-- What an engine makes of the source of a template. -/
abbrev TemplateEngine := String → TemplateVariables → Rendering

/-- Where the sources of templates come from. -/
abbrev Sources := String → Except Failure (Option String)

/-- What a rendering comes to, with the sources that it asks for. -/
def Rendering.run (sources : Sources) : Rendering → Except Failure String
  | .done text => text.mapError fun report => .value (.template report)
  | .ask name next => do
    let source ← sources name
    (next source).run sources

namespace TemplateEngine

/-- A source in which there is nothing to be done: no expression, statement or comment begins in it,
and its line ends are uniform. -/
def Plain (source : String) : Prop :=
  '\r' ∉ source.toList ∧ ∀ c ∈ ['{', '%', '#'], ¬ ['{', c] <:+: source.toList

/-- An engine renders plain sources as they are. -/
def KeepsPlain (engine : TemplateEngine) : Prop :=
  ∀ source given, Plain source → engine source given = .done (.ok source)

/-- The engine for plain sources alone: it renders every source as it is. -/
def copying : TemplateEngine := fun source _ => .done (.ok source)

end TemplateEngine

/-! ### The templates of a directory -/

/-- The template of a project. -/
inductive Template where
  /-- The bindings and the wrapper. -/
  | standard
  /-- One of the project's own. -/
  | own (source : String)
deriving DecidableEq, Repr

namespace Template

/-- The name by which the template of a project is looked up. -/
def fileName : String := "declaration.d.ts.j2"

/-- The file of a template in a directory of templates. No name leads up. -/
def file? (directory : Path) (name : String) : Option Path :=
  let parts := (Path.ofText name).parts
  if ".." ∈ parts then none else some { directory with parts := directory.parts ++ parts }

/-- The text of a file, if it is one. -/
def textOf? (d : Disk) (file : Path) : Except Failure (Option String) :=
  if !file.hasNull && d.isFile file then (d.readText file).map some else .ok none

/-- The sources of the templates in a directory. -/
def sourcesIn (directory : Option Path) (d : Disk) : Sources := fun name =>
  match directory.bind fun directory => file? directory name with
  | none => .ok none
  | some file => textOf? d file

/-- The template of a project: the one in its directory of templates, if it has one there. -/
def find (directory : Option Path) (d : Disk) : Except Failure Template :=
  (sourcesIn directory d fileName).map fun source => source.elim .standard .own

/-- The text of a declaration file, as the template of a project lays it out. -/
def text (engine : TemplateEngine) (directory : Option Path) (f : DeclarationFile) (d : Disk) :
    Except Failure String := do
  match ← find directory d with
  | .standard => pure f.render
  | .own source => (engine source f.variables).run (sourcesIn directory d)

end Template

end BoundaryTypes
