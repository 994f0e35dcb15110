/-
  `Confinement` — a run stays below its source directory.

  Settings that were accepted name their output file by a name without separators, and a
  module whose declaration file was assembled has identifiers for segments; whatever name a
  message, the settings or a request gave it, it has passed that test before a path is made of
  it. So the path of a file goes down from the source directory, once for each segment
  (`Settings.outputPath_eq`), and all that a replacement works at lies below
  (`run_stays_below`). The segments are read off the path again, so no two modules share one.
-/
import BoundaryTypes.Proofs.Disk.Below
import BoundaryTypes.Proofs.Run.Agreement

namespace BoundaryTypes

open Outcome Text

/-! ### The output file of a project -/

namespace Settings

variable {d : Disk} {root path : Path} {parser : Yaml.Parser} {settings : Settings}
  {entries : List (String × Yaml.Value)}

/-- The directory of the sources. -/
def base (settings : Settings) : Path := settings.root.join settings.sourceRoot

theorem isPathName_eq_false {name : String} (h : isPathName name = false) : '/' ∉ name.toList := by
  intro hslash
  have htrue : isPathName name = true := List.any_eq_true.2 ⟨'/', hslash, rfl⟩
  rw [h] at htrue
  cases htrue

theorem isPathName_of_ofEntries (h : ofEntries root entries = .ok settings) :
    isPathName settings.outputName = false := by
  unfold ofEntries at h
  dsimp only at h
  split at h
  · cases h
  · next hname =>
    obtain ⟨extractor, -, h⟩ := bind_eq_ok.1 h
    obtain ⟨names, -, h⟩ := bind_eq_ok.1 h
    cases h
    exact Bool.eq_false_iff.2 hname

theorem isPathName_of_ofText {text : String} (h : ofText root text parser = .ok settings) :
    isPathName settings.outputName = false := by
  unfold ofText at h
  split at h
  · exact isPathName_of_ofEntries h
  · split at h
    · unfold ofValue at h
      split at h
      · exact isPathName_of_ofEntries h
      · split at h
        · exact isPathName_of_ofEntries h
        · cases h
    · cases h

/-- The output file of accepted settings has a name without separators. -/
theorem noSeparator_of_load (h : load d path parser = .ok settings) :
    '/' ∉ settings.outputName.toList := by
  refine isPathName_eq_false ?_
  obtain ⟨file, -, h⟩ := bind_eq_ok.1 h
  obtain ⟨entry, -, h⟩ := bind_eq_ok.1 h
  -- Without a settings file the name is the usual one.
  split at h
  · cases h
    show isPathName "index.d.ts" = false
    decide
  · obtain ⟨text, -, h⟩ := bind_eq_ok.1 h
    exact isPathName_of_ofText h

/-- The output file lies at the end of the segments, seen from the sources. -/
theorem outputPath_eq {segments : List String} (hname : '/' ∉ settings.outputName.toList)
    (hsegments : ∀ segment ∈ segments, isIdentifier segment = true) :
    settings.outputPath segments = ⟨settings.base.anchor,
      settings.base.parts ++ segments ++ (Path.ofText settings.outputName).parts⟩ := by
  rw [outputPath, ← base, Path.foldl_joinText fun segment hsegment =>
    isStep_of_isIdentifier (hsegments segment hsegment), Path.joinText_of_noSeparator hname]

end Settings

namespace Run

variable {faults : Interruptions} {host : Host} {request : Request} {dryRun : Bool} {p q : Plan}
  {a : Activity} {d : Disk} {path : Path} {settings : Settings} {k : Place}

/-! ### The target of a plan -/

/-- A plan's target goes down from the sources by the segments of the module's name, which are
identifiers. -/
theorem target_of_plan (hpath : project host request = .ok path)
    (hsettings : Settings.load d path host.tools.parser = .ok settings)
    (h : Gives (plan host request) d p) :
    (∀ segment ∈ splitOn '.' p.moduleName, isIdentifier segment = true) ∧
      p.target = ⟨settings.base.anchor, settings.base.parts ++ splitOn '.' p.moduleName ++
        (Path.ofText settings.outputName).parts⟩ := by
  obtain ⟨path', settings', descriptor, hpath', hmake, htarget, hname⟩ := gives_plan.1 h
  obtain rfl := Except.ok.inj (hpath.symm.trans hpath')
  obtain ⟨hload, reported, -, -, hassemble⟩ := gives_make.1 hmake
  obtain rfl := Except.ok.inj (hsettings.symm.trans hload)
  obtain ⟨names, file, -, hfile, -⟩ := gives_assemble.1 hassemble
  have hsegments : ∀ segment ∈ descriptor.modulePath, isIdentifier segment = true :=
    (DeclarationFile.assemble_eq_ok hfile).1
  rw [hname, htarget]
  exact ⟨hsegments, Settings.outputPath_eq (Settings.noSeparator_of_load hsettings) hsegments⟩

/-- All that a planned replacement works at is below the sources. -/
theorem below_of_plan (hpath : project host request = .ok path)
    (hsettings : Settings.load d path host.tools.parser = .ok settings)
    (h : Gives (plan host request) d p)
    (hk : Replacement.Touches p.target k) : settings.base.Below k := by
  obtain ⟨hsegments, htarget⟩ := target_of_plan hpath hsettings h
  have hparts : p.target.parts = settings.base.parts ++ splitOn '.' p.moduleName ++
      (Path.ofText settings.outputName).parts := by
    rw [htarget]
  obtain ⟨steps, last, hdown⟩ := Replacement.exists_goesDown hparts
    (splitOn_ne_nil '.' p.moduleName)
    (fun segment hsegment => isStep_of_isIdentifier (hsegments segment hsegment))
    (Settings.noSeparator_of_load hsettings)
  exact hdown.below hk

/-- Plans under the same settings for the same file are for the same module. -/
theorem moduleName_eq_of_target_eq {host' : Host} {request' : Request} {d' : Disk} {path' : Path}
    (hpath : project host request = .ok path)
    (hsettings : Settings.load d path host.tools.parser = .ok settings)
    (h : Gives (plan host request) d p) (hpath' : project host' request' = .ok path')
    (hsettings' : Settings.load d' path' host'.tools.parser = .ok settings)
    (h' : Gives (plan host' request') d' q) (htarget : p.target = q.target) :
    p.moduleName = q.moduleName := by
  have hparts := congrArg Path.parts htarget
  rw [(target_of_plan hpath hsettings h).2, (target_of_plan hpath' hsettings' h').2] at hparts
  have hsegments := List.append_cancel_left (List.append_cancel_right hparts)
  exact splitOn_injective '.' hsegments

/-! ### The disk after a run -/

/-- Carrying out a plan leaves the disk as it is, or does what a replacement does. -/
theorem disk_carryOut (faults : Interruptions) (host : Host) (dryRun : Bool) (p : Plan)
    (a : Activity) :
    (stateOf (carryOut faults host dryRun p a)).disk = a.disk ∨
      (stateOf (carryOut faults host dryRun p a)).disk =
        (Disk.writeUnder faults a.disk host.mask p.target p.content).disk := by
  cases hread : a.disk.readExisting p.target with
  | error f =>
    refine .inl ?_
    rw [carryOut, bind_run_of_error _ (fromDisk_run_of_error hread)]
    rfl
  | ok current =>
    rw [carryOut_of_read hread]
    cases dryRun with
    | true =>
      rw [if_pos rfl, report_run]
      exact .inl rfl
    | false =>
      rw [if_neg Bool.false_ne_true]
      split
      · -- The disk is that of the replacement, even if it failed.
        have hwrite := write_run faults host p.target p.content a
        dsimp only at hwrite
        split at hwrite
        · rw [bind_run_of_ok _ hwrite, report_run]
          exact .inr rfl
        · rw [bind_run_of_error _ hwrite]
          exact .inr rfl
      · rw [report_run]
        exact .inl rfl

theorem disk_generateUnder (faults : Interruptions) (host : Host) (request : Request)
    (dryRun : Bool) (a : Activity) :
    (stateOf (generateUnder faults host request dryRun a)).disk = a.disk ∨
      ∃ p, Gives (plan host request) a.disk p ∧
        (stateOf (generateUnder faults host request dryRun a)).disk =
          (Disk.writeUnder faults a.disk host.mask p.target p.content).disk := by
  have hreads := readsOnly_plan host request
  cases hplan : plan host request a with
  | error f t =>
    rw [generateUnder, bind_run_of_error _ hplan]
    exact .inl (hreads.disk_of_error hplan)
  | ok p t =>
    have hgives : Gives (plan host request) a.disk p := (gives_iff hreads).2 ⟨t, hplan⟩
    rw [generateUnder, bind_run_of_ok _ hplan]
    -- Planning has left the disk as it was, so the plan is one for the first disk.
    rw [← hreads.disk_of_ok hplan] at hgives ⊢
    exact (disk_carryOut faults host dryRun p t).imp_right fun hdisk => ⟨p, hgives, hdisk⟩

/-! ### Confinement -/

/-- Some run of a project with these settings ends well, with this outcome. -/
def EndsWell (settings : Settings) (o : Outcome) : Prop :=
  ∃ faults host request dryRun a a' path, project host request = .ok path ∧
    Settings.load a.disk path host.tools.parser = .ok settings ∧
    generateUnder faults host request dryRun a = .ok o a'

/-- **Runs stay below their sources.** Whatever the settings are, and whatever a message or a
request names its module, every file that a run has created or changed when it ends, well or not,
lies below the directory of the sources: the way to its place goes on from there by one or more
parts that lead down. So does every file that differs at any time while the target is replaced.
And two runs under the same settings that end well for different modules have different output
files. -/
theorem run_stays_below (settings : Settings) :
    (∀ faults host request dryRun a path, project host request = .ok path →
      Settings.load a.disk path host.tools.parser = .ok settings →
      (∀ k, (stateOf (generateUnder faults host request dryRun a)).disk.file? k ≠ a.disk.file? k →
        settings.base.Below k) ∧
      ∀ p b, plan host request a = .ok p b →
        ∀ s ∈ (a.disk.writeCourse host.mask p.target p.content faults).disks, ∀ k,
          s.file? k ≠ a.disk.file? k → settings.base.Below k) ∧
    ∀ o o', EndsWell settings o → EndsWell settings o' → o.moduleName ≠ o'.moduleName →
      o.path ≠ o'.path := by
  refine ⟨fun faults host request dryRun a path hpath hsettings => ?_, fun o o' ho ho' hne => ?_⟩
  · have hbelow : ∀ p, Gives (plan host request) a.disk p → ∀ k s,
        (Replacement.CourseKeeps p.target.parent a.disk k
          (a.disk.writeCourse host.mask p.target p.content faults) →
            Disk.Opened p.target.parent a.disk s k) →
        s.file? k ≠ a.disk.file? k → settings.base.Below k := by
      intro p hplan k s hkept hchanged
      -- What is not below is out of the reach of the replacement, and keeps its file.
      by_contra hout
      have hfar : ¬ Replacement.Touches p.target k :=
        fun hk => hout (below_of_plan hpath hsettings hplan hk)
      exact hchanged (hkept (a.disk.writeCourse_elsewhere _ _ _ faults hfar)).kept.file?_eq
    refine ⟨fun k hchanged => ?_, fun p b hplan s hs k => hbelow p ?_ k s fun h => h.2 s hs⟩
    swap
    · exact (gives_iff (readsOnly_plan host request)).2 ⟨b, hplan⟩
    rcases disk_generateUnder faults host request dryRun a with hsame | ⟨p, hplan, hdisk⟩
    · exact absurd (congrArg (·.file? k) hsame) hchanged
    · exact hbelow p hplan k _ (fun h => hdisk ▸ h.1) hchanged
  · obtain ⟨faults, host, request, dryRun, a, a', path, hpath, hsettings, hrun⟩ := ho
    obtain ⟨faults', host', request', dryRun', b, b', path', hpath', hsettings', hrun'⟩ := ho'
    obtain ⟨p, current, hplan, -, rfl, -⟩ := generateUnder_eq_ok.1 ⟨a', hrun, rfl⟩
    obtain ⟨q, current', hplan', -, rfl, -⟩ := generateUnder_eq_ok.1 ⟨b', hrun', rfl⟩
    exact fun htarget => hne
      (moduleName_eq_of_target_eq hpath hsettings hplan hpath' hsettings' hplan' htarget)

/-- A request for another name of the module. -/
def homeRequest : Request := { shopRequest with moduleName := some "Page.Home" }

theorem gives_plan_home :
    ∃ p, Gives (plan shopHost homeRequest) newShop.disk p ∧ p.moduleName = "Page.Home" ∧
      p.target = Path.ofRoot ["shop", "src", "Page", "Home", "index.d.ts"] := by
  have hload : Extraction.load newShop.disk (some "Page.Home") (shopPath.joinText "types.json") =
      .ok mainDescriptor := load_shop rfl rfl
  obtain ⟨file, hfile⟩ : ∃ file,
      DeclarationFile.assemble .standard (renamed homeRequest mainDescriptor) = .ok file := ⟨_, rfl⟩
  have hnames : ({} : NameOverrides).resolve = .ok .standard := rfl
  have htext : Gives (assemble shopHost { root := shopPath } (renamed homeRequest mainDescriptor))
      newShop.disk file.render :=
    gives_assemble.2 ⟨.standard, file, hnames, hfile, rfl⟩
  have hmake : Gives (make shopHost shopPath homeRequest) newShop.disk
      ({ root := shopPath }, renamed homeRequest mainDescriptor, file.render) :=
    gives_make.2 ⟨rfl, mainDescriptor, gives_obtain.2 hload, rfl, htext⟩
  have htarget : ({ root := shopPath } : Settings).outputPath
      (renamed homeRequest mainDescriptor).modulePath =
      Path.ofRoot ["shop", "src", "Page", "Home", "index.d.ts"] := by
    decide
  exact ⟨⟨_, "Page.Home", _⟩,
    gives_plan.2 ⟨shopPath, _, _, rfl, hmake, htarget.symm, rfl⟩, rfl, rfl⟩

/-- The first run of a project writes below the sources, and a run for another module is about
another file. -/
theorem run_stays_below_newShop :
    let settings : Settings := { root := shopPath }
    (∃ a', generateUnder .never shopHost shopRequest false newShop = .ok newShopOutcome a' ∧
      a'.disk.file? shopTarget.place ≠ newShop.disk.file? shopTarget.place ∧
      settings.base.Below shopTarget.place) ∧
    ∃ o b, generateUnder .never shopHost homeRequest true newShop = .ok o b ∧
      o.moduleName = "Page.Home" ∧ newShopOutcome.path ≠ o.path := by
  intro settings
  have hsettings : Settings.load newShop.disk shopPath shopHost.tools.parser = .ok settings := rfl
  obtain ⟨hbelow, hapart⟩ := run_stays_below settings
  obtain ⟨a', hrun⟩ := exists_run_newShop
  constructor
  · have hwritten : a'.disk.file? shopTarget.place ≠ newShop.disk.file? shopTarget.place := by
      have hnone : newShop.disk.file? shopTarget.place = none := rfl
      obtain ⟨p, current, -, -, ho, hcarried⟩ := generateUnder_eq_ok.1 ⟨a', hrun, rfl⟩
      obtain ⟨mode, hheld⟩ := hcarried.file?_target (ho ▸ changed_newShopOutcome)
      have htarget : p.target = shopTarget := (congrArg Outcome.path ho).symm
      rw [← htarget, hheld, htarget, hnone]
      exact Option.some_ne_none _
    refine ⟨a', hrun, hwritten, ?_⟩
    obtain ⟨hdisk, -⟩ := hbelow .never shopHost shopRequest false newShop shopPath rfl hsettings
    rw [hrun] at hdisk
    exact hdisk _ hwritten
  · obtain ⟨p, hplan, hname, htarget⟩ := gives_plan_home
    have hmissing : newShop.disk.readExisting p.target = .ok "" := by
      rw [htarget]
      rfl
    obtain ⟨b, hdry, -⟩ := generateUnder_eq_ok.2 ⟨p, "", hplan, hmissing, rfl, Carried.dry⟩
    refine ⟨_, b, hdry, hname, hapart _ _ ?_ ?_ ?_⟩
    · exact ⟨_, shopHost, _, _, _, a', shopPath, rfl, hsettings, hrun⟩
    · exact ⟨_, shopHost, _, _, _, b, shopPath, rfl, hsettings, hdry⟩
    · show "Main" ≠ p.moduleName
      rw [hname]
      decide

end Run

end BoundaryTypes
