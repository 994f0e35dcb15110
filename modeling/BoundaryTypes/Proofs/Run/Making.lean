/-
  `Making` — what the steps of a run make of a disk.

  Up to the moment at which a run writes, its steps depend on the disk alone. So what such a
  step gives can be said of the disk, without the activity around it (`Gives`), and a sequence
  gives what its steps give one after another (`gives_bind`). In these terms a plan and a
  preview come from the same settings, descriptor, file and template, and a run that ends well
  has compared its plan with the target and then left the disk alone, or replaced the target
  (`generateUnder_eq_ok`).
-/
import BoundaryTypes.Proofs.DeclarationFile.Bindings
import BoundaryTypes.Proofs.Run.Failing

namespace BoundaryTypes.Run

open Outcome

variable {α β : Type} {x : RunM α} {f : α → RunM β} {a a' b : Activity} {v : α} {w : β} {d : Disk}

/-- A step gives a value on a disk, whatever was done before. -/
def Gives (x : RunM α) (d : Disk) (v : α) : Prop := ∀ a : Activity, a.disk = d → ∃ b, x a = .ok v b

/-! ### Steps and their sequences -/

theorem gives_iff (h : ReadsOnly x) : Gives x a.disk v ↔ ∃ b, x a = .ok v b :=
  ⟨fun hgives => hgives a rfl, fun ⟨_, hrun⟩ _ hc => h.ok_of_disk_eq hrun hc⟩

theorem gives_bind (hx : ReadsOnly x) (hf : ∀ v, ReadsOnly (f v)) :
    Gives (x >>= f) d w ↔ ∃ v, Gives x d v ∧ Gives (f v) d w := by
  constructor
  · -- The value does not depend on what was done before, so nothing may have been done.
    intro h
    obtain ⟨b, hrun⟩ := h ⟨d, [], []⟩ rfl
    obtain ⟨v, t, hv, hw⟩ := bind_run_eq_ok.1 hrun
    have hdisk : t.disk = d := hx.disk_of_ok hv
    exact ⟨v, (gives_iff hx).2 ⟨t, hv⟩, hdisk ▸ (gives_iff (hf v)).2 ⟨b, hw⟩⟩
  · rintro ⟨v, hv, hw⟩ a rfl
    obtain ⟨t, ht⟩ := hv a rfl
    rw [bind_run_of_ok f ht]
    exact hw t (hx.disk_of_ok ht)

theorem gives_pure {u : α} : Gives (pure u) d v ↔ v = u := by
  constructor
  · intro h
    obtain ⟨b, hb⟩ := h ⟨d, [], []⟩ rfl
    exact (pure_run_eq_ok.1 hb).1.symm
  · rintro rfl a -
    exact ⟨a, rfl⟩

theorem not_gives_throw {e : Failure} : ¬ Gives (throw e : RunM α) d v := by
  intro h
  obtain ⟨b, hb⟩ := h ⟨d, [], []⟩ rfl
  cases hb

theorem gives_fromDisk {g : Disk → Except Failure α} : Gives (fromDisk g) d v ↔ g d = .ok v := by
  constructor
  · intro h
    obtain ⟨b, hb⟩ := h ⟨d, [], []⟩ rfl
    cases hg : g d with
    | ok u =>
      rw [fromDisk_run_of_ok (a := ⟨d, [], []⟩) hg] at hb
      cases hb
      rfl
    | error e =>
      rw [fromDisk_run_of_error (a := ⟨d, [], []⟩) hg] at hb
      cases hb
  · rintro h a rfl
    exact ⟨a, fromDisk_run_of_ok h⟩

theorem gives_lift {r : Except Failure α} : Gives (lift r) d v ↔ r = .ok v := gives_fromDisk

/-- A report gives nothing and does not fail. -/
theorem gives_report_then (e : Event) (hx : ReadsOnly x) :
    Gives (do report e; x) d v ↔ Gives x d v := by
  rw [gives_bind (readsOnly_report e) fun _ => hx]
  exact ⟨fun ⟨_, _, h⟩ => h, fun h => ⟨(), fun a _ => ⟨_, rfl⟩, h⟩⟩

/-! ### The descriptor -/

variable {host : Host} {settings : Settings} {path : Path} {request : Request}
  {reported descriptor : Descriptor} {text : String} {p : Plan}

/-- The file that a run reads the descriptor from, if it reads one: that of the request, else that
of the settings. -/
def descriptorFile? (host : Host) (settings : Settings) (request : Request) : Option Path :=
  ((given? request.descriptor).map host.directory.joinText).or settings.descriptor

/-- The name of a module whose descriptor names none. -/
def fallbackName? (settings : Settings) (request : Request) : Option String :=
  (given? request.moduleName).or settings.moduleName

/-- The descriptor under the name that the request asks for. -/
def renamed (request : Request) (reported : Descriptor) : Descriptor :=
  match given? request.moduleName with
  | none => reported
  | some name => { reported with moduleName := name }

theorem gives_readDescriptor {fallback : Option String} :
    Gives (readDescriptor fallback path) d reported ↔
      Extraction.load d fallback path = .ok reported := by
  rw [readDescriptor, gives_report_then _ (readsOnly_fromDisk _), gives_fromDisk]

theorem gives_extract {extractor : ExtractorSettings} {fallback : Option String} :
    Gives (extract host extractor path fallback) d reported ↔
      extractor.command.isEmpty = false ∧
        ∃ printed, host.tools.runner d (Extraction.invocation extractor path) = .ok printed ∧
          Extraction.decode fallback printed = .ok reported := by
  have hread (v : Command.Invocation) : ReadsOnly (do
      let printed ← fromDisk fun d => host.tools.runner d v
      lift (Extraction.decode fallback printed) : RunM Descriptor) :=
    (readsOnly_fromDisk _).bind fun _ => readsOnly_lift _
  have hinvoke (v : Command.Invocation) :
      ReadsOnly (modify fun a => { a with invocations := a.invocations ++ [v] } : RunM PUnit) :=
    ⟨_, reads_modify fun _ => rfl⟩
  -- What the run says and notes down gives nothing; printing and decoding are left.
  have hrest : Gives (do
      let v := Extraction.invocation extractor path
      report (.runningExtractor v.args v.directory)
      modify fun a => { a with invocations := a.invocations ++ [v] }
      let printed ← fromDisk fun d => host.tools.runner d v
      lift (Extraction.decode fallback printed) : RunM Descriptor) d reported ↔
      ∃ printed, host.tools.runner d (Extraction.invocation extractor path) = .ok printed ∧
        Extraction.decode fallback printed = .ok reported := by
    rw [gives_report_then _ ((hinvoke _).bind fun _ => hread _),
      gives_bind (hinvoke _) fun _ => hread _]
    have hinvoked (v : Command.Invocation) : Gives (modify fun a =>
        { a with invocations := a.invocations ++ [v] } : RunM PUnit) d ⟨⟩ := fun a _ => ⟨_, rfl⟩
    simp only [gives_bind (readsOnly_fromDisk _) fun _ => readsOnly_lift _, gives_fromDisk,
      gives_lift]
    exact ⟨fun ⟨_, _, h⟩ => h, fun h => ⟨_, hinvoked _, h⟩⟩
  rw [extract]
  split
  · next hempty =>
    rw [hempty]
    exact iff_of_false not_gives_throw fun h => Bool.false_ne_true h.1.symm
  · next hcommand =>
    rw [and_iff_right (Bool.eq_false_iff.2 hcommand)]
    exact hrest

/-- The descriptor is read from its file if there is one, and else the extractor prints it. -/
theorem gives_obtain :
    Gives (obtain host settings path request) d reported ↔
      match descriptorFile? host settings request with
      | some file => Extraction.load d (fallbackName? settings request) file = .ok reported
      | none => settings.extractor.command.isEmpty = false ∧
        ∃ printed,
          host.tools.runner d (Extraction.invocation settings.extractor path) = .ok printed ∧
          Extraction.decode (fallbackName? settings request) printed = .ok reported := by
  rw [obtain, descriptorFile?]
  dsimp only
  -- A file of the request, else one of the settings, else the extractor.
  split
  · next file hfile => rw [hfile]; exact gives_readDescriptor
  · next file hnone hfile => rw [hnone, hfile]; exact gives_readDescriptor
  · next hnone hfile =>
    rw [hnone, hfile]
    split
    · next hempty =>
      exact iff_of_false not_gives_throw fun h => Bool.false_ne_true (h.1.symm.trans hempty)
    · exact gives_extract

theorem gives_rename : Gives (rename request reported) d descriptor ↔
    descriptor = renamed request reported := by
  unfold rename renamed
  cases given? request.moduleName with
  | none => exact gives_pure
  | some name =>
    dsimp only
    -- That another name is taken is said, and nothing else.
    split
    · rw [gives_report_then _ (readsOnly_pure _), gives_pure]
    · exact gives_pure

/-! ### The text -/

/-- The text of a project is its declaration file, laid out by its template. -/
theorem gives_assemble : Gives (assemble host settings descriptor) d text ↔
    ∃ names file, settings.names.resolve = .ok names ∧
      DeclarationFile.assemble names descriptor = .ok file ∧
      Template.text host.tools.engine settings.templates file d = .ok text := by
  have hfault (f : TypeFault) : ReadsOnly (do
      for e in Event.ofFault f do report e
      throw (.type f) : RunM String) := by
    refine ReadsOnly.bind (readsOnly_forIn (fun e u => ?_) _) fun _ => readsOnly_throw _
    exact (readsOnly_report e).bind fun _ => readsOnly_pure _
  refine (gives_bind (readsOnly_lift _) fun names => ?_).trans ?_
  · split
    · next f hf => exact hfault f
    · next file hfile => exact (readsOnly_report _).bind fun _ => readsOnly_fromDisk _
  simp only [gives_lift, mapError_eq_ok]
  refine exists_congr fun names => ?_
  cases hfile : DeclarationFile.assemble names descriptor with
  | error f =>
    -- The fault is reported, and then the step fails.
    refine iff_of_false (fun h => ?_) fun ⟨_, _, h, _⟩ => by cases h
    obtain ⟨b, hb⟩ := h.2 ⟨d, [], []⟩ rfl
    obtain ⟨-, t, -, hthrow⟩ := bind_run_eq_ok.1 hb
    cases hthrow
  | ok file =>
    dsimp only
    rw [gives_report_then _ (readsOnly_fromDisk _), gives_fromDisk]
    constructor
    · rintro ⟨hresolve, htext⟩
      exact ⟨file, hresolve, rfl, htext⟩
    · rintro ⟨_, hresolve, hfile, htext⟩
      cases hfile
      exact ⟨hresolve, htext⟩

/-- What a project is made of: its settings, the descriptor and the text. -/
theorem gives_make {made : Settings × Descriptor × String} :
    Gives (make host path request) d made ↔
      Settings.load d path host.tools.parser = .ok made.1 ∧
      ∃ reported, Gives (obtain host made.1 path request) d reported ∧
        made.2.1 = renamed request reported ∧ Gives (assemble host made.1 made.2.1) d made.2.2 := by
  obtain ⟨settings, descriptor, text⟩ := made
  have hwhole (settings : Settings) (descriptor : Descriptor) : ReadsOnly (do
      pure (settings, descriptor, ← assemble host settings descriptor) :
        RunM (Settings × Descriptor × String)) :=
    (readsOnly_assemble host settings descriptor).bind fun _ => readsOnly_pure _
  have hnamed (settings : Settings) (reported : Descriptor) : ReadsOnly (do
      let descriptor ← rename request reported
      pure (settings, descriptor, ← assemble host settings descriptor) :
        RunM (Settings × Descriptor × String)) :=
    (readsOnly_rename request reported).bind (hwhole settings)
  have hread (settings : Settings) : ReadsOnly (do
      let descriptor ← rename request (← obtain host settings path request)
      pure (settings, descriptor, ← assemble host settings descriptor) :
        RunM (Settings × Descriptor × String)) :=
    (readsOnly_obtain host settings path request).bind (hnamed settings)
  -- Four steps, and each gives its value whatever was done before it.
  rw [make, gives_bind (readsOnly_fromDisk _) hread]
  simp only [gives_fromDisk, gives_bind (readsOnly_obtain host _ path request) (hnamed _),
    gives_bind (readsOnly_rename request _) (hwhole _), gives_rename,
    gives_bind (readsOnly_assemble _ _ _) fun _ => readsOnly_pure _, gives_pure, Prod.mk.injEq]
  constructor
  · rintro ⟨_, hload, reported, hreported, _, rfl, _, htext, rfl, rfl, rfl⟩
    exact ⟨hload, reported, hreported, rfl, htext⟩
  · rintro ⟨hload, reported, hreported, rfl, htext⟩
    exact ⟨_, hload, reported, hreported, _, rfl, _, htext, rfl, rfl, rfl⟩

/-! ### Plans and previews -/

/-- A plan is what a project is made of, for the file of its module. -/
theorem gives_plan : Gives (plan host request) d p ↔
    ∃ path settings descriptor, project host request = .ok path ∧
      Gives (make host path request) d (settings, descriptor, p.content) ∧
      p.target = settings.outputPath descriptor.modulePath ∧
      p.moduleName = descriptor.moduleName := by
  refine (gives_bind (readsOnly_lift _) fun path => ?_).trans (exists_congr fun path => ?_)
  · refine (readsOnly_report _).bind fun _ => ?_
    exact (readsOnly_make host path request).bind fun _ => readsOnly_pure _
  rw [gives_lift, gives_report_then _ ((readsOnly_make host path request).bind fun _ =>
    readsOnly_pure _), gives_bind (readsOnly_make host path request) fun _ => readsOnly_pure _]
  -- Both directions name the same parts in another order.
  constructor
  · rintro ⟨hpath, ⟨settings, descriptor, content⟩, hmake, hp⟩
    cases gives_pure.1 hp
    exact ⟨settings, descriptor, hpath, hmake, rfl, rfl⟩
  · rintro ⟨settings, descriptor, hpath, hmake, htarget, hname⟩
    refine ⟨hpath, (settings, descriptor, p.content), hmake, gives_pure.2 ?_⟩
    rw [← htarget, ← hname]

/-- What a run says of a plan when its target reads as a text. -/
def Plan.outcome (p : Plan) (current : String) (dryRun : Bool) : Outcome where
  path := p.target
  moduleName := p.moduleName
  diff := if current != p.content then Diff.render current p.content p.target.name else ""
  changed := current != p.content
  dryRun := dryRun

/-- What carrying out a plan leaves of a disk: the disk as it is when there is nothing to write, and
else the disk after a replacement that did not fail. -/
inductive Carried (faults : Interruptions) (mask : Nat) (p : Plan) (current : String) (d : Disk) :
    Bool → Disk → Prop
  | dry : Carried faults mask p current d true d
  | upToDate (h : current = p.content) : Carried faults mask p current d false d
  | replaced (h : current ≠ p.content)
      (hwrite : (Disk.writeUnder faults d mask p.target p.content).fault = none) :
      Carried faults mask p current d false (Disk.writeUnder faults d mask p.target p.content).disk

variable {faults : Interruptions} {dryRun : Bool} {o : Outcome}

/-- Once the target is read, what is left of a run is one of three ends. -/
theorem carryOut_of_read {current : String} (h : a.disk.readExisting p.target = .ok current) :
    carryOut faults host dryRun p a = (do
      if dryRun then report (.notWritten p.target)
      else if current != p.content then
        write faults host p.target p.content
        report (.written p.target)
      else report (.upToDate p.target)
      pure (p.outcome current dryRun) : RunM Outcome) a := by
  rw [carryOut, bind_run_of_ok _ (fromDisk_run_of_ok h)]
  rfl

theorem carryOut_eq_ok :
    (∃ a', carryOut faults host dryRun p a = .ok o a' ∧ a'.disk = d) ↔
      ∃ current, a.disk.readExisting p.target = .ok current ∧ o = p.outcome current dryRun ∧
        Carried faults host.mask p current a.disk dryRun d := by
  constructor
  · rintro ⟨a', hrun, rfl⟩
    -- A run that ends well has read its target first.
    have hread : ∃ current, a.disk.readExisting p.target = .ok current := by
      obtain ⟨current, t, hcurrent, -⟩ := bind_run_eq_ok.1 hrun
      exact ⟨current, gives_fromDisk.1 ((gives_iff (readsOnly_fromDisk _)).2 ⟨t, hcurrent⟩)⟩
    obtain ⟨current, hread⟩ := hread
    refine ⟨current, hread, ?_⟩
    rw [carryOut_of_read hread] at hrun
    cases dryRun with
    | true =>
      rw [if_pos rfl, report_run] at hrun
      cases hrun
      exact ⟨rfl, .dry⟩
    | false =>
      rw [if_neg Bool.false_ne_true] at hrun
      split at hrun
      · next hchanged =>
        obtain ⟨_, t, hwrite, hend⟩ := bind_run_eq_ok.1 hrun
        rw [report_run] at hend
        cases hend
        -- The write did not fail, or the run would have ended here.
        rw [write_run] at hwrite
        dsimp only at hwrite
        split at hwrite
        · next hnone =>
          cases hwrite
          exact ⟨rfl, .replaced (bne_iff_ne.1 hchanged) hnone⟩
        · cases hwrite
      · next hchanged =>
        rw [report_run] at hrun
        cases hrun
        exact ⟨rfl, .upToDate (by simpa using hchanged)⟩
  · rintro ⟨current, hread, rfl, hcarried⟩
    rw [carryOut_of_read hread]
    -- Each end is one branch of what is left of the run.
    cases hcarried with
    | dry =>
      rw [if_pos rfl, report_run]
      exact ⟨_, rfl, rfl⟩
    | upToDate h =>
      have hchanged : ¬ (current != p.content) = true := by simp [h]
      rw [if_neg Bool.false_ne_true, if_neg hchanged, report_run]
      exact ⟨_, rfl, rfl⟩
    | replaced h hnone =>
      have hwrite := write_run faults host p.target p.content a
      dsimp only at hwrite
      rw [hnone] at hwrite
      rw [if_neg Bool.false_ne_true, if_pos (bne_iff_ne.2 h), bind_run_of_ok _ hwrite, report_run]
      exact ⟨_, rfl, rfl⟩

/-- A run that ends well has made a plan and read its target; what it says follows from the two, and
so does what it leaves of the disk. -/
theorem generateUnder_eq_ok :
    (∃ a', generateUnder faults host request dryRun a = .ok o a' ∧ a'.disk = d) ↔
      ∃ p current, Gives (plan host request) a.disk p ∧
        a.disk.readExisting p.target = .ok current ∧ o = p.outcome current dryRun ∧
        Carried faults host.mask p current a.disk dryRun d := by
  have hreads := readsOnly_plan host request
  constructor
  · rintro ⟨a', hrun, hdisk⟩
    obtain ⟨p, b, hplan, hcarry⟩ := bind_run_eq_ok.1 hrun
    obtain ⟨current, hread, ho, hcarried⟩ := carryOut_eq_ok.1 ⟨a', hcarry, hdisk⟩
    rw [hreads.disk_of_ok hplan] at hread hcarried
    exact ⟨p, current, (gives_iff hreads).2 ⟨b, hplan⟩, hread, ho, hcarried⟩
  · rintro ⟨p, current, hplan, hread, ho, hcarried⟩
    obtain ⟨b, hb⟩ := hplan a rfl
    rw [← hreads.disk_of_ok hb] at hread hcarried
    rw [generateUnder, bind_run_of_ok _ hb]
    exact carryOut_eq_ok.2 ⟨current, hread, ho, hcarried⟩

end BoundaryTypes.Run
