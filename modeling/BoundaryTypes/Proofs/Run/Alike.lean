/-
  `Alike` — what a run looks up, on two disks that are alike.

  Before it writes, a run looks up its project, the settings, the templates and the target. When
  none of these can tell two disks apart (`Overlooks`), they are found the same on both, and
  carrying out the same plan comes to the same (`Disk.Alike.carried`).
-/
import BoundaryTypes.Proofs.Disk.SideBySide
import BoundaryTypes.Proofs.Run.Results
import BoundaryTypes.Proofs.Template

namespace BoundaryTypes

open Outcome

variable {K : Place → Prop} {solid : Prop} {d d' : Disk} {host : Host} {request : Request}
  {path : Path}

/-- The reading of a file cannot tell disks apart that differ at places of `K` only. -/
structure Disk.Unseen (K : Place → Prop) (solid : Prop) (file : Path) : Prop where
  clear : Disk.Clear K solid file
  place : ¬ K file.place

/-- A run has these settings. -/
structure Run.Loads (host : Host) (request : Request) (d : Disk) (path : Path)
    (settings : Settings) : Prop where
  project : Run.project host request = .ok path
  load : Settings.load d path host.tools.parser = .ok settings

/-- A run lays out this declaration file. -/
def Run.Assembles (host : Host) (request : Request) (d : Disk) (path : Path)
    (settings : Settings) (f : DeclarationFile) : Prop :=
  ∃ reported names, Run.obtained host settings path request d = .ok reported ∧
    settings.names.resolve = .ok names ∧
    DeclarationFile.assemble names (Run.renamed request reported) = .ok f

/-- Another engine renders the declaration file of a run as its own does, with the templates of a
disk: both come to the same text, or report the same. -/
def Run.RendersAlike (host : Host) (engine' : TemplateEngine) (request : Request) (d d' : Disk) :
    Prop :=
  ∀ path settings f, Run.Loads host request d path settings →
    Run.Assembles host request d path settings f →
    Template.text engine' settings.templates f d' =
      Template.text host.tools.engine settings.templates f d'

/-- The lookups of a run, but for those of its descriptor, cannot tell disks apart that differ at
places of `K` only. -/
structure Run.Overlooks (K : Place → Prop) (solid : Prop) (host : Host) (request : Request)
    (d : Disk) : Prop where
  project : ∀ path, Run.project host request = .ok path → Disk.Clear K solid path
  settings : ∀ path file, Run.project host request = .ok path → Settings.fileOf d path = .ok file →
    Disk.Unseen K solid file
  template : ∀ path settings f directory file, Run.Loads host request d path settings →
    Run.Assembles host request d path settings f → settings.templates = some directory →
    Template.LooksAt host.tools.engine directory f d file → Disk.Unseen K solid file
  target : ∀ p, Run.planned host request d = .ok p → Replacement.Away K solid p.target

namespace Disk.Alike

/-- The settings file is looked for under the same path. -/
theorem fileOf (h : Disk.Alike K solid d d') (hpath : Disk.Clear K solid path) :
    Settings.fileOf d' path = Settings.fileOf d path := by
  rw [Settings.fileOf, Settings.fileOf, h.isDirectory hpath]

/-- The settings are read alike, if the project and their file are nowhere near the difference. -/
theorem load {parser : Yaml.Parser} (h : Disk.Alike K solid d d') (hpath : Disk.Clear K solid path)
    (hfile : ∀ file, Settings.fileOf d path = .ok file → Disk.Unseen K solid file) :
    Settings.load d' path parser = Settings.load d path parser := by
  rw [Settings.load, Settings.load, h.fileOf hpath]
  cases hfound : Settings.fileOf d path with
  | error f => rfl
  | ok file =>
    have hunseen := hfile file hfound
    rw [ok_bind, ok_bind, h.status hunseen.clear hunseen.place,
      h.readText hunseen.clear hunseen.place]

/-- The source of a template is read alike, if its file is not in the difference. -/
theorem textOf? {file : Path} (h : Disk.Alike K solid d d') (hfile : Disk.Unseen K solid file) :
    Template.textOf? d' file = Template.textOf? d file := by
  rw [Template.textOf?, Template.textOf?, h.isFile hfile.clear,
    h.readText hfile.clear hfile.place]

/-- A declaration file is laid out alike, if no file that is looked at for that is one of those in
which the disks differ. -/
theorem text {engine : TemplateEngine} {templates : Option Path} {f : DeclarationFile}
    (h : Disk.Alike K solid d d')
    (htemplate : ∀ directory file, templates = some directory →
      Template.LooksAt engine directory f d file → Disk.Unseen K solid file) :
    Template.text engine templates f d' = Template.text engine templates f d :=
  Template.text_congr fun directory file hdirectory hfile =>
    h.textOf? (htemplate directory file hdirectory hfile)

/-- To carry out the same plan comes to the same, if its target is away from the difference. -/
theorem carried {p : Run.Plan} (h : Disk.Alike K solid d d')
    (htarget : Replacement.Away K solid p.target) (faults : Interruptions) (mask : Nat)
    (dryRun : Bool) : Run.carried faults mask dryRun p d' = Run.carried faults mask dryRun p d := by
  have hwrite := (h.writeUnder htarget faults mask p.content).2
  rw [Run.carried, Run.carried, h.readExisting htarget.clear htarget.place, hwrite]

end Disk.Alike

end BoundaryTypes
