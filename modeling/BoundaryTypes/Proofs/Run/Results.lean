/-
  `Results` — what a run comes to, well or not, as a function of the disk.

  The steps of a run before it writes come to what plain functions make of the disk: of the
  settings, of the source of the descriptor, of the name asked for, and of the template (`made`).
  So a preview and a plan come to what is `made` of a project, and a run comes to what its plan
  and the replacement of its target come to (`valueOf_generateUnder`).
-/
import BoundaryTypes.Proofs.Run.Making

namespace BoundaryTypes.Run

open Outcome

variable {α : Type} {x : RunM α}

/-- The value or the failure that a run comes to. -/
def valueOf : EStateM.Result Failure Activity α → Except Failure α
  | .ok v _ => .ok v
  | .error e _ => .error e

/-- The value of a reading is that of the disk on which it began. -/
theorem Reads.valueOf {r : Disk → Except Failure α} (h : Reads x r) (a : Activity) :
    valueOf (x a) = r a.disk := by
  rcases h a with ⟨v, t, hrun, hr, -⟩ | ⟨e, t, hrun, hr, -⟩
  · rw [hrun, hr]
    rfl
  · rw [hrun, hr]
    rfl

/-- A step gives what it makes of the disk. -/
theorem Reads.gives_iff {r : Disk → Except Failure α} {d : Disk} {v : α} (h : Reads x r) :
    Gives x d v ↔ r d = .ok v := by
  rcases h ⟨d, [], []⟩ with ⟨w, t, hrun, hr, -⟩ | ⟨e, t, hrun, hr, -⟩
  · rw [hr]
    constructor
    · intro hgives
      obtain ⟨b, hb⟩ := hgives ⟨d, [], []⟩ rfl
      rw [hrun] at hb
      cases hb
      rfl
    · intro hv
      cases hv
      exact (Run.gives_iff (a := ⟨d, [], []⟩) ⟨r, h⟩).2 ⟨t, hrun⟩
  · rw [hr]
    refine iff_of_false (fun hgives => ?_) nofun
    obtain ⟨b, hb⟩ := hgives ⟨d, [], []⟩ rfl
    rw [hrun] at hb
    cases hb

/-! ### Reports -/

theorem reads_throw (e : Failure) : Reads (throw e : RunM α) fun _ => .error e :=
  fun a => .inr ⟨e, a, rfl, rfl, rfl⟩

/-- Reports come to nothing. -/
theorem reads_reports (es : List Event) :
    Reads (forIn es PUnit.unit fun e _ => do report e; pure (.yield ⟨⟩)) fun _ => .ok ⟨⟩ := by
  induction es with
  | nil => exact reads_pure _
  | cons e rest ih =>
    have hreport : Reads (do report e; pure (.yield ⟨⟩) : RunM (ForInStep PUnit))
        fun _ => .ok (.yield ⟨⟩) := (reads_report e).bind fun _ => reads_pure _
    rw [List.forIn_cons]
    intro a
    obtain ⟨v, t, hrun, hv, hdisk⟩ | ⟨e, t, -, he, -⟩ := hreport a
    · cases hv
      rw [bind_run_of_ok _ hrun, ← hdisk]
      exact ih t
    · cases he

/-! ### The descriptor -/

variable {host : Host} {settings : Settings} {path : Path} {request : Request}

/-- The descriptor that an extractor prints. -/
def extracted (host : Host) (extractor : ExtractorSettings) (path : Path)
    (fallback : Option String) (d : Disk) : Except Failure Descriptor :=
  host.tools.runner d (Extraction.invocation extractor path) >>= Extraction.decode fallback

/-- The descriptor of a project: from its file if one is named, and else from the extractor. -/
def obtained (host : Host) (settings : Settings) (path : Path) (request : Request) (d : Disk) :
    Except Failure Descriptor :=
  match descriptorFile? host settings request with
  | some file => Extraction.load d (fallbackName? settings request) file
  | none =>
    if settings.extractor.command.isEmpty then .error (.extraction .noSource)
    else extracted host settings.extractor path (fallbackName? settings request) d

/-- A descriptor in a file is what the file holds. -/
theorem reads_readDescriptor (fallback : Option String) (file : Path) :
    Reads (readDescriptor fallback file) fun d => Extraction.load d fallback file :=
  (reads_report _).bind fun _ => reads_fromDisk _

/-- A descriptor of the extractor is decoded from what it prints. -/
theorem reads_extract {extractor : ExtractorSettings}
    (hcommand : extractor.command.isEmpty = false) (fallback : Option String) :
    Reads (extract host extractor path fallback) (extracted host extractor path fallback) := by
  have hread (v : Command.Invocation) : Reads (do
      let printed ← fromDisk fun d => host.tools.runner d v
      lift (Extraction.decode fallback printed) : RunM Descriptor)
      fun d => host.tools.runner d v >>= Extraction.decode fallback :=
    (reads_fromDisk _).bind fun _ => reads_fromDisk _
  have hinvoked (v : Command.Invocation) : Reads (modify fun a =>
      { a with invocations := a.invocations ++ [v] } : RunM PUnit) fun _ => .ok ⟨⟩ :=
    reads_modify fun _ => rfl
  rw [extract, if_neg (by rw [hcommand]; exact Bool.false_ne_true)]
  exact (reads_report _).bind fun _ => (hinvoked _).bind fun _ => hread _

/-- Which source is asked is decided by request and settings alone. -/
theorem reads_obtain :
    Reads (obtain host settings path request) (obtained host settings path request) := by
  rw [obtain]
  unfold obtained descriptorFile?
  dsimp only
  -- A file that the request names, one that the settings name, or the extractor.
  split
  · next file hfile =>
    rw [hfile]
    exact reads_readDescriptor _ _
  · next file hnone hfile =>
    rw [hnone, hfile]
    exact reads_readDescriptor _ _
  · next hnone hfile =>
    rw [hnone, hfile]
    dsimp only [Option.map_none, Option.or_none]
    split
    · exact fun a => .inr ⟨_, a, rfl, rfl, rfl⟩
    · next hcommand => exact reads_extract (Bool.eq_false_iff.2 hcommand) _

theorem reads_rename (reported : Descriptor) :
    Reads (rename request reported) fun _ => .ok (renamed request reported) := by
  unfold rename renamed
  cases given? request.moduleName with
  | none => exact reads_pure _
  | some name =>
    dsimp only
    split
    · exact (reads_report _).bind fun _ => reads_pure _
    · exact reads_pure _

/-! ### The text -/

/-- The text for a descriptor, as the names and the template of a project make it. -/
def laidOut (host : Host) (settings : Settings) (descriptor : Descriptor) (d : Disk) :
    Except Failure String := do
  let names ← settings.names.resolve.mapError fun f => .settings (.names f)
  let file ← (DeclarationFile.assemble names descriptor).mapError .type
  Template.text host.tools.engine settings.templates file d

/-- The declaration file is assembled from the descriptor and laid out by the template. -/
theorem reads_assemble (descriptor : Descriptor) :
    Reads (assemble host settings descriptor) (laidOut host settings descriptor) := by
  refine Reads.bind (reads_fromDisk _) fun names => ?_
  cases DeclarationFile.assemble names descriptor with
  | error f => exact (reads_reports _).bind fun _ => reads_throw _
  | ok file =>
    exact (reads_report _).bind fun _ => reads_fromDisk _

/-- The text depends on the disk and on the engine by what the template makes of the declaration
file. -/
theorem laidOut_congr {host' : Host} {descriptor : Descriptor} {d d' : Disk}
    (h : ∀ names f, settings.names.resolve = .ok names →
      DeclarationFile.assemble names descriptor = .ok f →
      Template.text host'.tools.engine settings.templates f d' =
        Template.text host.tools.engine settings.templates f d) :
    laidOut host' settings descriptor d' = laidOut host settings descriptor d := by
  unfold laidOut
  cases hnames : settings.names.resolve with
  | error f => rfl
  | ok names =>
    rw [mapError_ok, ok_bind, ok_bind]
    cases hfile : DeclarationFile.assemble names descriptor with
    | error f => rfl
    | ok f => exact h names f hnames hfile

/-- What a project is made of: its settings, the descriptor under the name asked for, and the text;
or why it cannot be made. -/
def made (host : Host) (request : Request) (path : Path) (d : Disk) :
    Except Failure (Settings × Descriptor × String) := do
  let settings ← Settings.load d path host.tools.parser
  let reported ← obtained host settings path request d
  let text ← laidOut host settings (renamed request reported) d
  pure (settings, renamed request reported, text)

/-- Settings, descriptor and text of a run as one function of the disk. -/
theorem reads_make : Reads (make host path request) (made host request path) := by
  refine (reads_fromDisk _).bind fun settings => reads_obtain.bind fun reported => ?_
  exact (reads_rename reported).bind fun _ => (reads_assemble _).bind fun _ => reads_pure _

/-- What a preview comes to. -/
def previewed (host : Host) (request : Request) (d : Disk) : Except Failure String := do
  let path ← project host request
  let (_, _, text) ← made host request path d
  pure text

theorem reads_preview : Reads (preview host request) (previewed host request) :=
  (reads_fromDisk _).bind fun _ => reads_make.bind fun _ => reads_pure _

/-- What planning a run comes to. -/
def planned (host : Host) (request : Request) (d : Disk) : Except Failure Plan := do
  let path ← project host request
  let (settings, descriptor, text) ← made host request path d
  pure ⟨settings.outputPath descriptor.modulePath, descriptor.moduleName, text⟩

theorem reads_plan : Reads (plan host request) (planned host request) :=
  (reads_fromDisk _).bind fun _ => (reads_report _).bind fun _ => reads_make.bind fun _ =>
    reads_pure _

/-- The plan of a run is the one that its disk gives. -/
theorem planned_of_run {p : Plan} {a a' : Activity} (h : plan host request a = .ok p a') :
    planned host request a.disk = .ok p := by
  have hreads : Reads (plan host request) (planned host request) := reads_plan
  have hvalue := hreads.valueOf a
  rw [h] at hvalue
  exact hvalue.symm

/-! ### Runs -/

variable {faults : Interruptions} {dryRun : Bool} {p : Plan}

/-- What carrying out a plan comes to. -/
def carried (faults : Interruptions) (mask : Nat) (dryRun : Bool) (p : Plan) (d : Disk) :
    Except Failure Outcome := do
  let current ← d.readExisting p.target
  if !dryRun && current != p.content then
    if let some f := (Disk.writeUnder faults d mask p.target p.content).fault then throw f
  pure (p.outcome current dryRun)

/-- What comes of a plan is a function of the disk on which it is carried out. -/
theorem valueOf_carryOut (a : Activity) :
    valueOf (carryOut faults host dryRun p a) = carried faults host.mask dryRun p a.disk := by
  unfold carried
  cases hread : a.disk.readExisting p.target with
  | error f =>
    rw [carryOut, bind_run_of_error _ (fromDisk_run_of_error hread)]
    rfl
  | ok current =>
    rw [carryOut_of_read hread, ok_bind]
    cases dryRun with
    | true => rfl
    | false =>
      rw [if_neg Bool.false_ne_true, Bool.not_false, Bool.true_and]
      split
      · -- A text that differs is written, which may fail.
        have hwrite := write_run faults host p.target p.content a
        dsimp only at hwrite
        cases hfault : (Disk.writeUnder faults a.disk host.mask p.target p.content).fault with
        | none =>
          rw [hfault] at hwrite
          rw [bind_run_of_ok _ hwrite]
          rfl
        | some f =>
          rw [hfault] at hwrite
          rw [bind_run_of_error _ hwrite]
          rfl
      · rfl

/-- What a run comes to: its plan, and what carrying it out comes to. -/
theorem valueOf_generateUnder (a : Activity) :
    valueOf (generateUnder faults host request dryRun a) =
      (planned host request a.disk >>= fun p => carried faults host.mask dryRun p a.disk) := by
  rw [generateUnder]
  have hreads : Reads (plan host request) (planned host request) := reads_plan
  rcases hreads a with
    ⟨p, t, hrun, hplan, hdisk⟩ | ⟨e, t, hrun, hplan, -⟩
  · rw [bind_run_of_ok _ hrun, hplan, ok_bind, valueOf_carryOut, hdisk]
  · rw [bind_run_of_error _ hrun, hplan]
    rfl

end BoundaryTypes.Run
