/-
  `Repetition` — a run that is repeated finds its file up to date.

  A plan depends on the disk by what it looks up there: the settings, the file of the
  descriptor, and the template (`gives_plan_of`). A run leaves these as they were if its target
  is none of them, so a second run has the same plan. And the file that the first one wrote reads
  as the planned text, which has no carriage return if the template is plain or the standard one
  (`not_mem_return_of_plan`); so there is nothing to write.

  One lookup may turn out otherwise. A template that was missing is found if the path to it
  steps up, by a `..`, out of a directory that the first run has made.
-/
import BoundaryTypes.Proofs.DeclarationFile.Nesting
import BoundaryTypes.Proofs.Disk.Lookups
import BoundaryTypes.Proofs.Run.Confinement
import BoundaryTypes.Proofs.Template

namespace BoundaryTypes

open Outcome Text

/-! ### The settings of a directory -/

namespace Settings

variable {d s : Disk} {path : Path} {parser : Yaml.Parser} {settings : Settings} {r : Replacement}
  {mode : Nat}

theorem joinText_settingsFileName (path : Path) :
    path.joinText settingsFileName = ⟨path.anchor, path.parts ++ [settingsFileName]⟩ := by
  have hparts : (Path.ofText settingsFileName).parts = [settingsFileName] := by decide
  rw [Path.joinText_of_noSeparator (by decide), hparts]

/-- A directory has its settings in the file of that name. -/
theorem fileOf_of_directory (hnull : path.hasNull = false) (hroot : path.anchor = .root)
    (hup : ".." ∉ path.parts) (h : d.isDirectory path = .ok true) :
    fileOf d path = .ok (path.joinText settingsFileName) := by
  have hname : (path.joinText settingsFileName).hasNull = false := by
    rw [joinText_settingsFileName, Path.hasNull_eq_false, List.forall_mem_append,
      List.forall_mem_singleton]
    exact ⟨Path.hasNull_eq_false.1 hnull, by decide⟩
  have hresolve : Path.resolve (path.joinText settingsFileName) (path.joinText settingsFileName) =
      path.joinText settingsFileName := by
    have hparts : ".." ∉ path.parts ++ [settingsFileName] := by
      rw [List.mem_append, not_or]
      exact ⟨hup, by decide⟩
    rw [joinText_settingsFileName, Path.resolve, Path.join, Path.isAbsolute, hroot]
    show Path.ofRoot (Path.collapse ([] ++ (path.parts ++ [settingsFileName]))) = _
    rw [Path.collapse_append hparts]
    rfl
  unfold fileOf
  rw [hnull, if_neg Bool.false_ne_true, h]
  show (do
    Failure.checkName (path.joinText settingsFileName)
    pure (Path.resolve (path.joinText settingsFileName) (path.joinText settingsFileName)) :
      Except Failure Path) = _
  rw [Failure.checkName, hname, hresolve]
  rfl

/-- A directory has the settings that its file holds, or the standard ones if there is no file. -/
theorem load_of_directory (hnull : path.hasNull = false) (hroot : path.anchor = .root)
    (hup : ".." ∉ path.parts) (h : d.isDirectory path = .ok true) :
    load d path parser = .ok settings ↔
      (d.place (path.joinText settingsFileName) = .ok (path.joinText settingsFileName).place ∧
        d.entryAt? (path.joinText settingsFileName).place = none ∧ settings = { root := path }) ∨
      ∃ text, d.readText (path.joinText settingsFileName) = .ok text ∧
        ofText path text parser = .ok settings := by
  have hparent : (path.joinText settingsFileName).parent = path := by
    rw [joinText_settingsFileName, Path.parent, List.dropLast_concat]
  have hleads : d.Leads (path.joinText settingsFileName).parent := by
    rw [hparent]
    exact Disk.isDirectory_eq_true.1 h
  unfold load
  rw [fileOf_of_directory hnull hroot hup h, bind_eq_ok]
  generalize path.joinText settingsFileName = file at *
  constructor
  · rintro ⟨_, hfile, hload⟩
    cases hfile
    -- The way to the file is open, since it leads through the directory.
    obtain ⟨e, he, hload⟩ := bind_eq_ok.1 hload
    cases hstatus : d.status file with
    | error f =>
      rw [hstatus] at he
      cases he
    | ok entry =>
      rw [hstatus] at he
      cases he
      obtain ⟨hplace, hentry⟩ := Disk.status_of_leads hleads hstatus
      cases e with
      | none =>
        cases hload
        exact .inl ⟨hplace, hentry, by rw [hparent]⟩
      | some e =>
        obtain ⟨text, htext, hload⟩ := bind_eq_ok.1 hload
        exact .inr ⟨text, htext, hparent ▸ hload⟩
  · intro hfound
    refine ⟨file, rfl, ?_⟩
    dsimp only
    rw [hparent]
    rcases hfound with ⟨hplace, hentry, rfl⟩ | ⟨text, htext, hload⟩
    · rw [Disk.status_of_place hplace, hentry]
      rfl
    · obtain ⟨-, bytes, hbytes, -⟩ := Disk.readText_eq_ok.1 htext
      obtain ⟨k, m, hplace, hentry⟩ := Disk.readBytes_eq_ok.1 hbytes
      rw [Disk.status_of_place hplace, hentry]
      refine bind_eq_ok.2 ⟨some (.file bytes m), rfl, ?_⟩
      exact bind_eq_ok.2 ⟨text, htext, hload⟩

/-- A replacement of another file leaves the settings of a directory as they were, if no directory
gets the name of a settings file that was missing. -/
theorem load_of_replaced (hnull : path.hasNull = false) (hroot : path.anchor = .root)
    (hup : ".." ∉ path.parts) (hdirectory : d.isDirectory path = .ok true)
    (h : Replacement.Replaced d r mode s)
    (hne : (path.joinText settingsFileName).place ≠ r.target.place)
    (hnew : d.entryAt? (path.joinText settingsFileName).place = none →
      settings = { root := path } →
        s.entryAt? (path.joinText settingsFileName).place ≠ some .directory)
    (hload : load d path parser = .ok settings) : load s path parser = .ok settings := by
  rw [load_of_directory hnull hroot hup (h.isDirectory hdirectory)]
  rcases (load_of_directory hnull hroot hup hdirectory).1 hload with
    ⟨hplace, hentry, hstandard⟩ | ⟨text, htext, hload⟩
  · refine .inl ⟨h.place hplace, ?_, hstandard⟩
    -- A missing file stays missing, unless a directory has got its name.
    rcases h.kept _ hne with hsame | ⟨-, hmade⟩
    · exact hsame.trans hentry
    · exact absurd hmade (hnew hentry hstandard)
  · exact .inr ⟨text, h.readText hne htext, hload⟩

end Settings

namespace Path

theorem place_of_not_mem {p : Path} (h : ".." ∉ p.parts) : p.place = p.parts := by
  have hcollapse := collapse_append h []
  rwa [List.nil_append] at hcollapse

end Path

namespace Run

variable {host : Host} {request : Request} {p : Plan} {d s : Disk} {path : Path}
  {settings : Settings} {reported : Descriptor}

/-! ### Lookups -/

/-- The paths that a run looks up: the settings, the file of the descriptor, and the template. -/
def lookups (host : Host) (request : Request) (settings : Settings) (path : Path) : List Path :=
  path.joinText settingsFileName :: (descriptorFile? host settings request).toList ++
    (settings.templates.map (·.joinText Template.fileName)).toList

/-- A descriptor is read again from a file whose text is read again. -/
theorem load_of_same_text {file : Path} {fallback : Option String}
    (htext : ∀ text, d.readText file = .ok text → s.readText file = .ok text)
    (h : Extraction.load d fallback file = .ok reported) :
    Extraction.load s fallback file = .ok reported := by
  cases hread : d.readText file with
  | ok text =>
    rw [load_of_readText hread] at h
    rw [load_of_readText (htext text hread), h]
  | error f =>
    -- Without a text there is no descriptor.
    rw [Extraction.load, hread] at h
    dsimp only at h
    split at h
    · cases h
    · cases h

theorem gives_obtain_of
    (hdescriptor : ∀ file, descriptorFile? host settings request = some file →
      ∀ text, d.readText file = .ok text → s.readText file = .ok text)
    (hprinted : descriptorFile? host settings request = none →
      host.tools.runner s (Extraction.invocation settings.extractor path) =
        host.tools.runner d (Extraction.invocation settings.extractor path))
    (h : Gives (obtain host settings path request) d reported) :
    Gives (obtain host settings path request) s reported := by
  rw [gives_obtain] at h ⊢
  split at h
  · next file hfile => exact load_of_same_text (hdescriptor file hfile) h
  · next hnone =>
    rw [hprinted hnone]
    exact h

/-- A plan depends on the disk by what is looked up there. -/
theorem gives_plan_of (hpath : project host request = .ok path)
    (hsettings : Settings.load d path host.tools.parser = .ok settings)
    (hload : Settings.load s path host.tools.parser = .ok settings)
    (hobtain : ∀ reported, Gives (obtain host settings path request) d reported →
      Gives (obtain host settings path request) s reported)
    (htemplate : ∀ file text, Template.text host.tools.engine settings.templates file d = .ok text →
      Template.text host.tools.engine settings.templates file s = .ok text)
    (h : Gives (plan host request) d p) : Gives (plan host request) s p := by
  -- The plan's steps on the first disk, and the same steps on the second.
  obtain ⟨path', settings', descriptor, hpath', hmake, htarget, hname⟩ := gives_plan.1 h
  obtain rfl := Except.ok.inj (hpath.symm.trans hpath')
  obtain ⟨hload', reported, hreported, hdescribed, htext⟩ := gives_make.1 hmake
  obtain rfl := Except.ok.inj (hsettings.symm.trans hload')
  obtain ⟨names, file, hnames, hfile, hlaid⟩ := gives_assemble.1 htext
  have htext : Gives (assemble host settings descriptor) s p.content :=
    gives_assemble.2 ⟨names, file, hnames, hfile, htemplate file _ hlaid⟩
  exact gives_plan.2 ⟨path, settings, descriptor, hpath,
    gives_make.2 ⟨hload, reported, hobtain _ hreported, hdescribed, htext⟩, htarget, hname⟩

/-- The template of a project, if it has one of its own, is plain. -/
def PlainTemplate (settings : Settings) (d : Disk) : Prop :=
  ∀ source, Template.find settings.templates d = .ok (.own source) → TemplateEngine.Plain source

/-- A planned text has no carriage return, if the template is plain: a declaration file has none,
and a plain source neither. -/
theorem not_mem_return_of_plan (hengine : host.tools.engine.KeepsPlain)
    (hpath : project host request = .ok path)
    (hsettings : Settings.load d path host.tools.parser = .ok settings)
    (hplain : PlainTemplate settings d) (h : Gives (plan host request) d p) :
    '\r' ∉ p.content.toList := by
  obtain ⟨path', settings', descriptor, hpath', hmake, -, -⟩ := gives_plan.1 h
  obtain rfl := Except.ok.inj (hpath.symm.trans hpath')
  obtain ⟨hload, reported, -, -, htext⟩ := gives_make.1 hmake
  obtain rfl := Except.ok.inj (hsettings.symm.trans hload)
  obtain ⟨names, file, -, hfile, hlaid⟩ := gives_assemble.1 htext
  have hlaid : Template.text host.tools.engine settings.templates file d = .ok p.content := hlaid
  cases hfound : Template.find settings.templates d with
  | error f =>
    rw [Template.text, hfound] at hlaid
    cases hlaid
  | ok template =>
    cases template with
    | standard =>
      rw [Template.text_of_find_standard hfound] at hlaid
      rw [← Except.ok.inj hlaid]
      exact (DeclarationFile.legible_render hfile).not_mem_return
    | own source =>
      have hsource := hplain source hfound
      rw [Template.text_of_plain hengine hsource hfound] at hlaid
      rw [← Except.ok.inj hlaid]
      exact hsource.1

/-! ### After a replacement -/

variable {r : Replacement} {mode : Nat}

/-- The template is the one that it was, unless it is the target or the path to it steps up out of a
new directory. -/
theorem find_of_replaced {templates : Option Path} (htree : d.IsTree)
    (h : Replacement.Replaced d r mode s)
    (hne : ∀ directory, templates = some directory →
      (directory.joinText Template.fileName).place ≠ r.target.place)
    (hup : ∀ directory, templates = some directory →
      d.LeavesNoNew s (directory.joinText Template.fileName))
    {template : Template} (htemplate : Template.find templates d = .ok template) :
    Template.find templates s = .ok template := by
  cases templates with
  | none => exact htemplate
  | some directory =>
    have hne := hne directory rfl
    rw [Template.find_eq, map_eq_ok] at htemplate ⊢
    obtain ⟨source, hsource, hfound⟩ := htemplate
    refine ⟨source, ?_, hfound⟩
    unfold Template.textOf? at hsource ⊢
    -- Whether there is a template is answered alike, and then its text is the same.
    rw [h.isFile htree hne (hup directory rfl)]
    split at hsource
    · next hfile =>
      rw [if_pos hfile]
      obtain ⟨text, htext, rfl⟩ := map_eq_ok.1 hsource
      exact map_eq_ok.2 ⟨text, h.readText hne htext, rfl⟩
    · next hfile =>
      rw [if_neg hfile]
      exact hsource

/-- With the same template, if it is plain, the text is the same. -/
theorem text_of_find {f : DeclarationFile} {text : String} (hengine : host.tools.engine.KeepsPlain)
    (hplain : PlainTemplate settings d)
    (hfind : ∀ template, Template.find settings.templates d = .ok template →
      Template.find settings.templates s = .ok template)
    (h : Template.text host.tools.engine settings.templates f d = .ok text) :
    Template.text host.tools.engine settings.templates f s = .ok text := by
  cases hfound : Template.find settings.templates d with
  | error e =>
    rw [Template.text, hfound] at h
    cases h
  | ok template =>
    cases template with
    | standard =>
      rw [Template.text_of_find_standard hfound] at h
      rwa [Template.text_of_find_standard (hfind _ hfound)]
    | own source =>
      have hsource := hplain source hfound
      rw [Template.text_of_plain hengine hsource hfound] at h
      rwa [Template.text_of_plain hengine hsource (hfind _ hfound)]

theorem anchor_of_project (h : project host request = .ok path) :
    path.anchor = .root ∧ ".." ∉ path.parts := by
  obtain ⟨_, -, hpath⟩ := bind_eq_ok.1 h
  cases hpath
  exact ⟨rfl, Path.not_mem_collapse _⟩

/-- Under the standard settings, the directory of a plan's target is found by going down from the
project, into the sources first. -/
theorem directory_of_standard (hpath : project host request = .ok path)
    (hsettings : Settings.load d path host.tools.parser = .ok { root := path })
    (h : Gives (plan host request) d p) :
    p.target.parts.dropLast = path.parts ++ "src" :: splitOn '.' p.moduleName ∧
      ".." ∉ path.parts ++ "src" :: splitOn '.' p.moduleName := by
  obtain ⟨-, hup⟩ := anchor_of_project hpath
  obtain ⟨hsegments, htarget⟩ := target_of_plan hpath hsettings h
  have hsrc : (Path.ofText "src").parts = ["src"] := by decide
  have hname : (Path.ofText "index.d.ts").parts = ["index.d.ts"] := by decide
  have hbase : ({ root := path } : Settings).base = path.joinText "src" := rfl
  have hparts : p.target.parts = ({ root := path } : Settings).base.parts ++
      splitOn '.' p.moduleName ++ (Path.ofText "index.d.ts").parts := congrArg Path.parts htarget
  constructor
  · rw [hparts, hbase, hname, List.dropLast_concat, Path.joinText_of_noSeparator (by decide), hsrc,
      List.append_assoc, List.singleton_append]
  · have hsteps : ".." ∉ splitOn '.' p.moduleName :=
      fun hmem => (isStep_of_isIdentifier (hsegments _ hmem)).ne_up rfl
    rw [List.mem_append, List.mem_cons, not_or, not_or]
    exact ⟨hup, by decide, hsteps⟩

/-- The standard settings of a project are not found differently after a run: no directory on the
way to a target below the sources has the name of the settings file. -/
theorem entryAt?_settings_of_standard (hpath : project host request = .ok path)
    (hsettings : Settings.load d path host.tools.parser = .ok { root := path })
    (h : Gives (plan host request) d p)
    (hopened : ∀ k, ¬ Replacement.Touches p.target k → Disk.Opened p.target.parent d s k)
    (hne : (path.joinText settingsFileName).place ≠ p.target.place)
    (hnone : d.entryAt? (path.joinText settingsFileName).place = none) :
    s.entryAt? (path.joinText settingsFileName).place = none := by
  obtain ⟨-, hup⟩ := anchor_of_project hpath
  obtain ⟨hdirectory, hway⟩ := directory_of_standard hpath hsettings h
  generalize splitOn '.' p.moduleName = way at hdirectory hway
  have hplace : (path.joinText settingsFileName).place = path.parts ++ [settingsFileName] := by
    rw [Settings.joinText_settingsFileName, Path.place_of_not_mem]
    rw [List.mem_append, not_or]
    exact ⟨hup, by decide⟩
  -- Behind the project, the way to the target goes on by another name.
  have hother : ¬ path.parts ++ [settingsFileName] <+: path.parts ++ "src" :: way := by
    intro hprefix
    have hhead := List.cons_prefix_cons.1 ((List.prefix_append_right_inj _).1 hprefix)
    exact absurd hhead.1 (by decide)
  have hfar : ¬ Replacement.Touches p.target (path.joinText settingsFileName).place := by
    rintro (⟨heq, -⟩ | ⟨n, heq⟩)
    · exact hne heq
    · have hcollapse : Path.collapse (path.parts ++ "src" :: way) = path.parts ++ "src" :: way :=
        Path.collapse_append hway []
      rw [hplace, Replacement.place_temporaryPath, hdirectory, hcollapse] at heq
      have hlength := congrArg List.length heq
      simp only [List.length_append, List.length_cons, List.length_nil] at hlength
      omega
  rcases hopened _ hfar with hsame | ⟨-, n, hn⟩
  · exact hsame.trans hnone
  · -- A new directory is on the way to the target, so it is none that leads elsewhere.
    have hfirst : (p.target.parent.first n).parts = (path.parts ++ "src" :: way).take n := by
      rw [← hdirectory]
      rfl
    have hup : ".." ∉ (p.target.parent.first n).parts := by
      rw [hfirst]
      exact fun hmem => hway (List.mem_of_mem_take hmem)
    rw [hplace, Path.place_of_not_mem hup, hfirst] at hn
    exact absurd (hn ▸ List.take_prefix n _) hother

/-- What a second run of a project needs to find the first one's lookups as they were, when the
first one has taken the disk `d` to `s` for the sake of its target. -/
structure Repeatable (host : Host) (request : Request) (path : Path) (settings : Settings)
    (d s : Disk) (target : Path) : Prop where
  tree : d.IsTree
  /-- The project is named by its directory. -/
  noNull : path.hasNull = false
  isDirectory : d.isDirectory path = .ok true
  /-- The target is none of the files that are looked up. -/
  apart : ∀ q ∈ lookups host request settings path, q.place ≠ target.place
  /-- The path to the template steps up out of no directory that the first run has made. -/
  leavesNoNew : ∀ directory, settings.templates = some directory →
    d.LeavesNoNew s (directory.joinText Template.fileName)
  /-- The template is the standard one or plain. -/
  engine : host.tools.engine.KeepsPlain
  plain : PlainTemplate settings d
  /-- An extractor prints the same again. -/
  printed : descriptorFile? host settings request = none →
    host.tools.runner s (Extraction.invocation settings.extractor path) =
      host.tools.runner d (Extraction.invocation settings.extractor path)

variable {faults : Interruptions} {current : String} {o : Outcome} {a a' : Activity}

/-- A disk whose target was replaced gives the same plan. -/
theorem gives_plan_of_replaced (hpath : project host request = .ok path)
    (hsettings : Settings.load d path host.tools.parser = .ok settings)
    (h : Repeatable host request path settings d s p.target)
    (hs : Replacement.Replaced d r mode s) (hr : r.target = p.target)
    (hopened : ∀ k, ¬ Replacement.Touches p.target k → Disk.Opened p.target.parent d s k)
    (hplan : Gives (plan host request) d p) : Gives (plan host request) s p := by
  obtain ⟨hroot, hup⟩ := anchor_of_project hpath
  have hapart := h.apart
  rw [← hr] at hapart
  have hne : (path.joinText settingsFileName).place ≠ r.target.place :=
    hapart _ (List.mem_append_left _ List.mem_cons_self)
  refine gives_plan_of hpath hsettings ?_ (fun reported => ?_)
    (fun file text => text_of_find h.engine h.plain fun template => ?_) hplan
  · refine Settings.load_of_replaced h.noNull hroot hup h.isDirectory hs hne ?_ hsettings
    rintro hnone rfl
    -- Only the standard settings can be hidden by a directory, and under them none gets that name.
    rw [entryAt?_settings_of_standard hpath hsettings hplan hopened (hr ▸ hne) hnone]
    exact nofun
  · refine gives_obtain_of (fun file hfile text => hs.readText (hapart file ?_)) h.printed
    rw [lookups, hfile]
    exact List.mem_append_left _ (List.mem_cons_of_mem _ List.mem_cons_self)
  · refine find_of_replaced h.tree hs (fun directory hdirectory => ?_) h.leavesNoNew
    refine hapart _ (List.mem_append_right _ ?_)
    rw [hdirectory]
    exact List.mem_singleton_self _

/-- What a run leaves gives the same plan, and its target is up to date. -/
theorem gives_plan_again (hpath : project host request = .ok path)
    (hsettings : Settings.load d path host.tools.parser = .ok settings)
    (h : Repeatable host request path settings d s p.target)
    (hplan : Gives (plan host request) d p) (hread : d.readExisting p.target = .ok current)
    (hcarried : Carried faults host.mask p current d false s) :
    Gives (plan host request) s p ∧ s.readExisting p.target = .ok p.content := by
  -- An up to date target leaves the disk; otherwise it was replaced by the planned text.
  cases hcarried with
  | upToDate hcurrent => exact ⟨hplan, hcurrent ▸ hread⟩
  | replaced hchanged hwrite =>
    have hs := (Disk.writeCourse_sound d host.mask p.target p.content faults).replaced hwrite
    have hopened : ∀ k, ¬ Replacement.Touches p.target k →
        Disk.Opened p.target.parent d (Disk.writeUnder faults d host.mask p.target p.content).disk
          k :=
      fun k hk => (d.writeCourse_elsewhere host.mask p.target p.content faults hk).1
    refine ⟨gives_plan_of_replaced hpath hsettings h hs rfl hopened hplan, ?_⟩
    exact hs.readExisting rfl (Disk.noNull_of_readExisting hread) 
      (not_mem_return_of_plan h.engine hpath hsettings h.plain hplan)

/-- **A repeated run changes nothing.** If a run ends well, and the disk that it leaves is asked for
the same once more, the second run ends well, even if it could not write: it finds the same module
and the same file up to date, shows no difference, and leaves the disk as it is. The project must be
named by its directory, the target be none of the files that are looked up, and the template's path
not step up out of a directory that the first run has made; and a template of the project's own must
be plain. -/
theorem run_again (hrun : generateUnder faults host request false a = .ok o a')
    (hpath : project host request = .ok path)
    (hsettings : Settings.load a.disk path host.tools.parser = .ok settings)
    (h : Repeatable host request path settings a.disk a'.disk o.path) (others : Interruptions) :
    ∃ o' b, generateUnder others host request false a' = .ok o' b ∧ o'.path = o.path ∧
      o'.moduleName = o.moduleName ∧ o'.changed = false ∧ o'.diff = "" ∧ b.disk = a'.disk := by
  obtain ⟨p, current, hplan, hread, rfl, hcarried⟩ := generateUnder_eq_ok.1 ⟨a', hrun, rfl⟩
  -- The second plan is the first one, and its text is what the target reads as.
  obtain ⟨hplan', hread'⟩ := gives_plan_again hpath hsettings h hplan hread hcarried
  have hend : Carried others host.mask p p.content a'.disk false a'.disk := .upToDate rfl
  obtain ⟨b, hb, hdisk⟩ := generateUnder_eq_ok.2 ⟨p, p.content, hplan', hread', rfl, hend⟩
  have hsame : (p.content != p.content) = false := bne_self_eq_false _
  refine ⟨p.outcome p.content false, b, hb, rfl, rfl, hsame, ?_, hdisk⟩
  rw [Plan.outcome, hsame]
  rfl

theorem isTree_newShop : newShop.disk.IsTree := by
  refine Disk.isTree_of_entries ?_
  decide

/-- The first run of a project finds what it looks up, and leaves it there. -/
theorem repeatable_newShop (s : Disk) :
    Repeatable shopHost shopRequest shopPath { root := shopPath } newShop.disk s shopTarget where
  tree := isTree_newShop
  noNull := by decide
  isDirectory := rfl
  apart := by decide
  leavesNoNew := nofun
  engine := fun _ _ _ => rfl
  plain := nofun
  printed := nofun

theorem run_again_newShop :
    ∃ a', generateUnder .never shopHost shopRequest false newShop = .ok newShopOutcome a' ∧
      ∃ o' b, generateUnder .never shopHost shopRequest false a' = .ok o' b ∧
        o'.changed = false ∧ o'.diff = "" ∧ b.disk = a'.disk := by
  obtain ⟨a', hrun⟩ := exists_run_newShop
  obtain ⟨o', b, hagain, -, -, hchanged, hdiff, hdisk⟩ :=
    run_again hrun rfl rfl (repeatable_newShop a'.disk) .never
  exact ⟨a', hrun, o', b, hagain, hchanged, hdiff, hdisk⟩

/-! ### A template behind a new directory -/

/-- Settings for a template in the project's directory, by a way through that of the sources. -/
def cornerText : String := "\"templates_dir\": \"src/..\"\n"

def cornerSettings : Settings :=
  { root := shopPath, templates := some (shopPath.joinText "src/..") }

/-- A project with a template that the way does not lead to before the sources are there. -/
def cornerShop : Activity := shop
  [(["shop", ".portgen.yml"], .file cornerText.toUTF8 0o644),
    (["shop", "declaration.d.ts.j2"], .file "// plain\n".toUTF8 0o644)]

/-- The disk after the first run of that project. -/
def cornerDisk : Disk :=
  (Disk.writeUnder .never cornerShop.disk shopHost.mask shopTarget mainText).disk

/-- The entry of a document that holds one text. -/
def onlyEntry? {ε : Type} : Except ε Yaml.Value → Option (String × String)
  | .ok (.mapping [(key, .text text)]) => some (key, text)
  | _ => none

theorem onlyEntry?_eq_some {ε : Type} {document : Except ε Yaml.Value} {key text : String} :
    onlyEntry? document = some (key, text) ↔ document = .ok (.mapping [(key, .text text)]) := by
  constructor
  · intro h
    unfold onlyEntry? at h
    split at h
    · cases h
      rfl
    · cases h
  · rintro rfl
    rfl

theorem ofText_cornerText : Settings.ofText shopPath cornerText = .ok cornerSettings := by
  have hread : Settings.parser cornerText =
      .ok (.mapping [("templates_dir", .text "src/..")]) :=
    onlyEntry?_eq_some.1 (by decide +kernel)
  have hblank : (stripBlank cornerText).isEmpty = false := by decide
  rw [Settings.ofText, hblank, if_neg Bool.false_ne_true, hread]
  rfl

theorem load_corner (hdirectory : d.isDirectory shopPath = .ok true)
    (hbytes : d.readBytes (shopPath.joinText settingsFileName) = .ok cornerText.toUTF8) :
    Settings.load d shopPath shopHost.tools.parser = .ok cornerSettings := by
  refine (Settings.load_of_directory ?_ rfl ?_ hdirectory).2
    (.inr ⟨cornerText, ?_, ofText_cornerText⟩)
  · decide
  · decide
  · exact Disk.readText_eq_ok.2 ⟨by decide, _, hbytes, Disk.textOf_toUTF8 (by decide)⟩

theorem gives_plan_corner {text : String}
    (hload : Settings.load d shopPath shopHost.tools.parser = .ok cornerSettings)
    (hbytes : d.readBytes (shopPath.joinText "types.json") = .ok (mainDescriptor.write none).toUTF8)
    (hlaid : Template.text shopHost.tools.engine cornerSettings.templates mainFile d = .ok text) :
    Gives (plan shopHost shopRequest) d ⟨shopTarget, "Main", text⟩ := by
  have hnames : ({} : NameOverrides).resolve = .ok .standard := rfl
  have htext : Gives (assemble shopHost cornerSettings mainDescriptor) d text :=
    gives_assemble.2 ⟨.standard, mainFile, hnames, assemble_main, hlaid⟩
  have hmake : Gives (make shopHost shopPath shopRequest) d
      (cornerSettings, mainDescriptor, text) :=
    gives_make.2 ⟨hload, mainDescriptor, gives_obtain.2 (load_shop rfl hbytes), rfl, htext⟩
  exact gives_plan.2 ⟨shopPath, _, _, rfl, hmake, rfl, rfl⟩

theorem replaceable_corner : cornerShop.disk.Replaceable shopTarget :=
  Disk.replaceable_of_length 6 rfl rfl rfl (by decide) rfl (by decide)

/-- What a run finds after the first one: another template, and the first one's text. -/
theorem found_cornerDisk :
    Settings.load cornerDisk shopPath shopHost.tools.parser = .ok cornerSettings ∧
    cornerDisk.readBytes (shopPath.joinText "types.json") =
      .ok (mainDescriptor.write none).toUTF8 ∧
    Template.find cornerSettings.templates cornerDisk = .ok (.own "// plain\n") ∧
    cornerDisk.readExisting shopTarget = .ok mainText ∧ cornerDisk.Replaceable shopTarget := by
  have hreplaced := (Disk.writeCourse_sound cornerShop.disk shopHost.mask shopTarget mainText
    .never).replaced (replaceable_corner.writes shopHost.mask mainText_ne)
  refine ⟨load_corner rfl rfl, rfl, ?_, ?_, ?_⟩
  · have hfile : cornerDisk.readText ((shopPath.joinText "src/..").joinText Template.fileName) =
        .ok "// plain\n" :=
      Disk.readText_eq_ok.2 ⟨by decide, _, rfl, Disk.textOf_toUTF8 (by decide)⟩
    have hthere : (!((shopPath.joinText "src/..").joinText Template.fileName).hasNull &&
        cornerDisk.isFile ((shopPath.joinText "src/..").joinText Template.fileName)) = true := rfl
    refine Template.find_eq_own.2 ?_
    rw [Template.textOf?, if_pos hthere, hfile]
    rfl
  · exact hreplaced.readExisting rfl (by decide) not_mem_mainText
  · exact Disk.replaceable_of_length 7 rfl rfl rfl (by decide) rfl (by decide)

/-- A project whose second run changes the file that the first one wrote: the first run makes the
directory of the sources, and through it the second one finds a template. -/
theorem run_again_corner :
    cornerShop.disk.IsTree ∧ shopPath.hasNull = false ∧
    cornerShop.disk.isDirectory shopPath = .ok true ∧
    Settings.load cornerShop.disk shopPath shopHost.tools.parser = .ok cornerSettings ∧
    shopHost.tools.engine.KeepsPlain ∧ TemplateEngine.Plain "// plain\n" ∧
    (∀ q ∈ lookups shopHost shopRequest cornerSettings shopPath, q.place ≠ shopTarget.place) ∧
    ∃ o a', generateUnder .never shopHost shopRequest false cornerShop = .ok o a' ∧
      o.path = shopTarget ∧
      ∃ o' b, generateUnder .never shopHost shopRequest false a' = .ok o' b ∧
        o'.changed = true := by
  have hload : Settings.load cornerShop.disk shopPath shopHost.tools.parser = .ok cornerSettings :=
    load_corner rfl rfl
  have hbrace : '{' ∉ "// plain\n".toList := by decide
  have hplain : TemplateEngine.Plain "// plain\n" :=
    ⟨by decide, fun c _ h => hbrace (h.subset List.mem_cons_self)⟩
  refine ⟨Disk.isTree_of_entries (by decide), by decide, rfl, hload, fun _ _ _ => rfl, hplain,
    by decide, ?_⟩
  -- The first run writes the standard text.
  have hfind : Template.find cornerSettings.templates cornerShop.disk = .ok .standard :=
    Template.find_of_missing rfl
  have hplan := gives_plan_corner hload rfl (Template.text_of_find_standard hfind)
  have hwrite := replaceable_corner.writes shopHost.mask mainText_ne
  obtain ⟨a', hrun, hdisk⟩ := generateUnder_eq_ok.2
    ⟨_, "", hplan, rfl, rfl, Carried.replaced mainText_ne.symm hwrite⟩
  refine ⟨_, a', hrun, rfl, ?_⟩
  -- The second one finds the template, and the standard text in its place.
  obtain ⟨hload', hbytes', htemplate, hread, hreplaceable'⟩ := found_cornerDisk
  have hdisk : a'.disk = cornerDisk := hdisk
  have hengine : shopHost.tools.engine.KeepsPlain := fun _ _ _ => rfl
  have hplan' := gives_plan_corner hload' hbytes' (Template.text_of_plain hengine hplain htemplate)
  have hne : mainText ≠ "// plain\n" := by decide
  have hwrite' := hreplaceable'.writes shopHost.mask (show "// plain\n" ≠ "" by decide)
  rw [← hdisk] at hplan' hread hwrite'
  obtain ⟨b, hb, -⟩ := generateUnder_eq_ok.2
    ⟨_, mainText, hplan', hread, rfl, Carried.replaced hne hwrite'⟩
  exact ⟨_, b, hb, changed_iff.2 hne⟩

end Run

end BoundaryTypes
