/-
  `Load` — the settings file of a project.

  A project is named by its directory, by its settings file, or by anything else in its
  directory. A project without settings file has the standard settings.
-/
import BoundaryTypes.Disk.Text
import BoundaryTypes.Settings.Basic

namespace BoundaryTypes.Settings

/-- The settings file of the project that a path names. -/
def fileOf (d : Disk) (p : Path) : Except Failure Path := do
  let isDirectory ← if p.hasNull then pure false else Failure.ofSystem (d.isDirectory p)
  let file :=
    if isDirectory then p.joinText settingsFileName
    else if p.name ≠ settingsFileName then p.parent.joinText settingsFileName
    else p
  Failure.checkName file
  pure (Path.resolve file file)

/-- The settings of the project that a path names. -/
def load (d : Disk) (p : Path) (parser : Yaml.Parser := parser) : Except Failure Settings := do
  let file ← fileOf d p
  let root := file.parent
  match ← Failure.ofSystem (d.status file) with
  | none => pure { root }
  | some _ => ofText root (← d.readText file) parser

end BoundaryTypes.Settings
