/-
  `Template` — which files the layout of a declaration file depends on.

  The template of a project is looked up by its name in the directory of templates. What its
  rendering comes to depends on the sources that it asks for, one after another
  (`Rendering.run_congr`), so a text depends on the disk by the files that were looked at
  for it, and by no others (`Template.text_congr`). By an engine that keeps plain sources
  a plain template is the text itself (`Template.text_of_plain`).
-/
import BoundaryTypes.Proofs.Outcome
import BoundaryTypes.Template

namespace BoundaryTypes

open Outcome

namespace Rendering

variable {sources sources' : Sources} {r : Rendering}

/-- A rendering asks for a template, once it has got the sources that it asked for before. -/
inductive Asks (sources : Sources) : Rendering → String → Prop
  | now {name : String} {next : Option String → Rendering} : Asks sources (.ask name next) name
  | later {name asked : String} {next : Option String → Rendering} {source : Option String}
    (h : sources name = .ok source) (hnext : Asks sources (next source) asked) :
    Asks sources (.ask name next) asked

/-- What a rendering comes to depends on the sources that it asks for alone. -/
theorem run_congr (h : ∀ name, r.Asks sources name → sources' name = sources name) :
    r.run sources' = r.run sources := by
  induction r with
  | done text => rfl
  | ask name next ih =>
    rw [run, run, h name .now]
    cases hsource : sources name with
    | error f => rfl
    | ok source => exact ih source fun asked hasked => h asked (.later hsource hasked)

end Rendering

namespace Template

variable {engine : TemplateEngine} {directory : Path} {directory? : Option Path}
  {f : DeclarationFile} {d d' : Disk} {source : String}

/-- The template of a project lies in its directory of templates. -/
theorem file?_fileName (directory : Path) :
    file? directory fileName = some (directory.joinText fileName) := by
  rw [file?, if_neg (by decide)]
  rfl

/-- The layout of a declaration file looks at a file: at that of the project's template, or at that
of a template which the rendering asks for. -/
inductive LooksAt (engine : TemplateEngine) (directory : Path) (f : DeclarationFile) (d : Disk) :
    Path → Prop
  | first : LooksAt engine directory f d (directory.joinText fileName)
  | asked {source name : String} {file : Path}
    (hsource : find (some directory) d = .ok (.own source))
    (hname : (engine source f.variables).Asks (sourcesIn (some directory) d) name)
    (hfile : file? directory name = some file) : LooksAt engine directory f d file

theorem find_eq (directory : Path) (d : Disk) : find (some directory) d =
    (textOf? d (directory.joinText fileName)).map fun source => source.elim .standard .own := by
  rw [find, sourcesIn, Option.bind_some, file?_fileName]

/-- A project has a template of its own exactly when the file of that name in its directory is one
that can be read. -/
theorem find_eq_own : find (some directory) d = .ok (.own source) ↔
    textOf? d (directory.joinText fileName) = .ok (some source) := by
  rw [find_eq, map_eq_ok]
  constructor
  · rintro ⟨source?, h, hown⟩
    cases source? with
    | none => cases hown
    | some source' =>
      cases hown
      exact h
  · exact fun h => ⟨some source, h, rfl⟩

theorem find_of_missing (h : textOf? d (directory.joinText fileName) = .ok none) :
    find (some directory) d = .ok .standard := by
  rw [find_eq, h]
  rfl

/-- A template of the project's own is rendered by the engine, with the sources of its directory. -/
theorem text_of_find_own (h : find directory? d = .ok (.own source)) :
    text engine directory? f d = (engine source f.variables).run (sourcesIn directory? d) := by
  rw [text, h]
  rfl

theorem text_of_find_standard (h : find directory? d = .ok .standard) :
    text engine directory? f d = .ok f.render := by
  rw [text, h]
  rfl

/-- A plain template is the text itself. -/
theorem text_of_plain (hengine : engine.KeepsPlain) (hplain : TemplateEngine.Plain source)
    (h : find directory? d = .ok (.own source)) : text engine directory? f d = .ok source := by
  rw [text_of_find_own h, hengine source _ hplain]
  rfl

/-- The text of a declaration file depends on the disk by the files that are looked at. -/
theorem text_congr (h : ∀ directory file, directory? = some directory →
      LooksAt engine directory f d file → textOf? d' file = textOf? d file) :
    text engine directory? f d' = text engine directory? f d := by
  cases directory? with
  | none => rfl
  | some directory =>
    have hfind : find (some directory) d' = find (some directory) d := by
      rw [find_eq, find_eq, h directory _ rfl .first]
    cases hfound : find (some directory) d with
    | error e =>
      rw [text, text, hfind, hfound]
      rfl
    | ok template =>
      cases template with
      | standard =>
        rw [text_of_find_standard hfound, text_of_find_standard (hfind.trans hfound)]
      | own source =>
        rw [text_of_find_own hfound, text_of_find_own (hfind.trans hfound)]
        -- Another template has the source that it had, or no file on any disk.
        refine Rendering.run_congr fun name hname => ?_
        unfold sourcesIn
        rw [Option.bind_some]
        cases hfile : file? directory name with
        | none => rfl
        | some file => exact h directory file rfl (.asked hfound hname hfile)

end Template

end BoundaryTypes
