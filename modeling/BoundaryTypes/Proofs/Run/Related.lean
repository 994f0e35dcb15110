/-
  `Related` — the same run on two kinds of states.

  A run acts on states of any kind. When states are related as long as the same is reported on
  both, and what the run looks up is the same on their disks, then the run comes to the same on
  both, well or not, and leaves related states (`Related`). This passes from steps to their
  sequences. For one kind of states and the relation that relates a state to itself alone, it says
  that a run keeps what its reports and its replacement keep (`carryOut_keeps`).
-/
import BoundaryTypes.Proofs.Run.Alike

namespace BoundaryTypes.Run

open Outcome

variable {σ τ α β : Type} {R R' R'' : σ → τ → Prop}

/-! ### Steps -/

/-- Two results with the same value or the same failure, that leave related states. -/
inductive Same (R : σ → τ → Prop) :
    EStateM.Result Failure σ α → EStateM.Result Failure τ α → Prop
  | ok (v : α) {s : σ} {t : τ} (h : R s t) : Same R (.ok v s) (.ok v t)
  | error (e : Failure) {s : σ} {t : τ} (h : R s t) : Same R (.error e s) (.error e t)

/-- From related states, two steps come to the same and leave related states. -/
def Related (R R' : σ → τ → Prop) (x : RunOn σ α) (y : RunOn τ α) : Prop :=
  ∀ s t, R s t → Same R' (x s) (y t)

/-- A step may give a value on a state that is related to another. -/
def MayGive (R : σ → τ → Prop) (x : RunOn σ α) (v : α) : Prop :=
  ∃ s t s', R s t ∧ x s = .ok v s'

/-- Runs that end alike do so in any weaker relation of their states. -/
theorem Same.mono {r : EStateM.Result Failure σ α} {r' : EStateM.Result Failure τ α}
    (h : Same R r r') (hle : ∀ s t, R s t → R' s t) : Same R' r r' := by
  cases h with
  | ok v h => exact .ok v (hle _ _ h)
  | error e h => exact .error e (hle _ _ h)

/-- The states that are left are related, however the runs end. -/
theorem Same.state {r : EStateM.Result Failure σ α} {r' : EStateM.Result Failure τ α}
    (h : Same R r r') : R (stateOf r) (stateOf r') := by
  cases h with
  | ok v h => exact h
  | error e h => exact h

/-- Sequences of related steps are related. What follows is compared only for values that the first
steps can really give. -/
theorem Related.bind {x : RunOn σ α} {y : RunOn τ α} {f : α → RunOn σ β} {g : α → RunOn τ β}
    (hx : Related R R' x y) (hf : ∀ v, MayGive R x v → Related R' R'' (f v) (g v))
    (hle : ∀ s t, R' s t → R'' s t) : Related R R'' (x >>= f) (y >>= g) := by
  intro s t hst
  have hfirst := hx s t hst
  -- Related steps end alike, so the two runs go on together or fail together.
  cases hrun : x s with
  | ok v s' =>
    rw [hrun] at hfirst
    cases hrun' : y t with
    | ok v' t' =>
      rw [hrun'] at hfirst
      cases hfirst with
      | ok _ hnext =>
        rw [bind_run_of_ok _ hrun, bind_run_of_ok _ hrun']
        exact hf v ⟨s, t, s', hst, hrun⟩ s' t' hnext
    | error e t' =>
      rw [hrun'] at hfirst
      cases hfirst
  | error e s' =>
    rw [hrun] at hfirst
    cases hrun' : y t with
    | ok v t' =>
      rw [hrun'] at hfirst
      cases hfirst
    | error e' t' =>
      rw [hrun'] at hfirst
      rw [bind_run_of_error _ hrun, bind_run_of_error _ hrun']
      cases hfirst with
      | error _ hlast => exact .error e (hle _ _ hlast)

/-- A step that keeps states related, and one behind it. -/
theorem Related.andThen {x : RunOn σ α} {y : RunOn τ α} {f : α → RunOn σ β} {g : α → RunOn τ β}
    (hx : Related R R x y) (hf : ∀ v, MayGive R x v → Related R R (f v) (g v)) :
    Related R R (x >>= f) (y >>= g) :=
  hx.bind hf fun _ _ h => h

theorem related_pure (v : α) : Related R R (pure v) (pure v) := fun _ _ hst => .ok v hst

theorem related_throw (e : Failure) : Related R R (throw e : RunOn σ α) (throw e) :=
  fun _ _ hst => .error e hst

/-- A step that is followed by another has given a value, from which the other may go on. -/
theorem MayGive.bind {x : RunOn σ α} {y : RunOn τ α} {f : α → RunOn σ β} {w : β}
    (h : MayGive R (x >>= f) w) (hx : Related R R' x y) :
    ∃ v, MayGive R x v ∧ MayGive R' (f v) w := by
  obtain ⟨s, t, s', hst, hrun⟩ := h
  obtain ⟨v, u, hv, hw⟩ := bind_run_eq_ok.1 hrun
  have hsame := hx s t hst
  rw [hv] at hsame
  -- The other step ends alike, in a state that is related to the one in between.
  generalize y t = r at hsame
  cases hsame with
  | ok _ hnext => exact ⟨v, ⟨s, t, u, hst, hv⟩, u, _, s', hnext, hw⟩

/-! ### Lookups and reports -/

section

variable [RunState σ]

theorem fromDisk_run {g : Disk → Except Failure α} (s : σ) :
    fromDisk g s = match g (RunState.disk s) with
      | .ok v => .ok v s
      | .error e => .error e s := by
  have hget : (get : RunOn σ σ) s = .ok s s := rfl
  rw [fromDisk, bind_run_of_ok _ hget]
  cases g (RunState.disk s) with
  | ok v => rfl
  | error e => rfl

/-- A value that can be read is read from some disk. -/
theorem exists_of_mayGive_fromDisk {g : Disk → Except Failure α} {v : α}
    (h : MayGive R (fromDisk g) v) : ∃ s t, R s t ∧ g (RunState.disk s) = .ok v := by
  obtain ⟨s, t, s', hst, hrun⟩ := h
  rw [fromDisk_run] at hrun
  refine ⟨s, t, hst, ?_⟩
  cases hg : g (RunState.disk s) with
  | ok u =>
    rw [hg] at hrun
    cases hrun
    rfl
  | error e =>
    rw [hg] at hrun
    cases hrun

theorem eq_ok_of_mayGive_lift {r : Except Failure α} {v : α} (h : MayGive R (lift r) v) :
    r = .ok v := by
  obtain ⟨_, _, _, hr⟩ := exists_of_mayGive_fromDisk h
  exact hr

end

variable [RunState σ] [RunState τ]

/-- What is looked up on the disks of related states is the same. -/
def Agree (R : σ → τ → Prop) (g : Disk → Except Failure α) : Prop :=
  ∀ s t, R s t → g (RunState.disk s) = g (RunState.disk t)

/-- A reading is related to itself, if related disks are read alike. -/
theorem Agree.fromDisk {g : Disk → Except Failure α} (h : Agree R g) :
    Related R R (fromDisk g) (fromDisk g) := by
  intro s t hst
  rw [fromDisk_run, fromDisk_run, h s t hst]
  cases g (RunState.disk t) with
  | ok v => exact .ok v hst
  | error e => exact .error e hst

theorem related_lift (r : Except Failure α) : Related R R (lift r) (lift r) :=
  Agree.fromDisk fun _ _ _ => rfl

/-- States stay related when the same is reported, or the same extractor is run. -/
structure Steady (R : σ → τ → Prop) : Prop where
  reported : ∀ s t e, R s t → R (RunState.reported s e) (RunState.reported t e)
  invoked : ∀ s t v, R s t → R (RunState.invoked s v) (RunState.invoked t v)

/-- A report is related to itself, if it keeps states related. -/
theorem Steady.related_report (h : Steady R) (e : Event) : Related R R (report e) (report e) :=
  fun s t hst => .ok () (h.reported s t e hst)

theorem Steady.related_reports (h : Steady R) (es : List Event) :
    Related R R (forIn es PUnit.unit fun e _ => do report e; pure (.yield ⟨⟩))
      (forIn es PUnit.unit fun e _ => do report e; pure (.yield ⟨⟩)) := by
  induction es with
  | nil => exact related_pure _
  | cons e rest ih =>
    rw [List.forIn_cons, List.forIn_cons]
    refine ((h.related_report e).andThen fun _ _ => related_pure _).andThen fun step hstep => ?_
    -- No report stops the loop.
    obtain ⟨s, t, s', -, hrun⟩ := hstep
    cases hrun
    exact ih

/-! ### The steps before a run writes -/

variable {host : Host} {request : Request}

/-- The settings are found on the disk of a state that is related to another. -/
def Found (R : σ → τ → Prop) (host : Host) (request : Request) (path : Path)
    (settings : Settings) : Prop :=
  ∃ s t, R s t ∧ Loads host request (RunState.disk s) path settings

/-- The descriptor is what is obtained on the disk of a state that is related to another. -/
def Reported (R : σ → τ → Prop) (host : Host) (request : Request) (path : Path)
    (settings : Settings) (reported : Descriptor) : Prop :=
  ∃ s t, R s t ∧ obtained host settings path request (RunState.disk s) = .ok reported

/-- A run that only makes a text cannot tell related states apart. -/
structure Indistinct (R : σ → τ → Prop) (host : Host) (request : Request) : Prop
    extends Steady R where
  settings : ∀ path, project host request = .ok path →
    Agree R fun d => Settings.load d path host.tools.parser
  descriptor : ∀ path settings file fallback, Found R host request path settings →
    descriptorFile? host settings request = some file →
    Agree R fun d => Extraction.load d fallback file
  extractor : ∀ v, Agree R fun d => host.tools.runner d v
  template : ∀ path settings reported names f, Found R host request path settings →
    Reported R host request path settings reported → settings.names.resolve = .ok names →
    DeclarationFile.assemble names (renamed request reported) = .ok f →
    Agree R (Template.text host.tools.engine settings.templates f)

/-- No run can tell a state from itself. -/
theorem indistinct_self {I : σ → Prop} (hreported : ∀ s e, I s → I (RunState.reported s e))
    (hinvoked : ∀ s v, I s → I (RunState.invoked s v)) :
    Indistinct (fun s t => s = t ∧ I s) host request := by
  have hagree {α : Type} (g : Disk → Except Failure α) : Agree (fun s t => s = t ∧ I s) g :=
    fun s t hst => congrArg (fun s => g (RunState.disk s)) hst.1
  -- A relation within equality: whatever is looked up is looked up on one disk.
  refine { reported := ?_, invoked := ?_, settings := ?_, descriptor := ?_, extractor := ?_,
           template := ?_ }
  · rintro s t e ⟨rfl, hs⟩
    exact ⟨rfl, hreported s e hs⟩
  · rintro s t v ⟨rfl, hs⟩
    exact ⟨rfl, hinvoked s v hs⟩
  · exact fun _ _ => hagree _
  · exact fun _ _ _ _ _ _ => hagree _
  · exact fun _ => hagree _
  · exact fun _ _ _ _ _ _ _ _ _ => hagree _

namespace Indistinct

variable {settings : Settings} {path : Path}

/-- The descriptor in a file is read alike: its file is one that cannot tell the states apart. -/
theorem readDescriptor {file : Path} {fallback : Option String} (h : Indistinct R host request)
    (hfound : Found R host request path settings)
    (hfile : descriptorFile? host settings request = some file) :
    Related R R (readDescriptor fallback file) (readDescriptor fallback file) :=
  (h.related_report _).andThen fun _ _ =>
    (h.descriptor path settings file fallback hfound hfile).fromDisk

/-- The extractor prints the same, since it is started with the same invocation on disks that it
cannot tell apart. -/
theorem extract (h : Indistinct R host request) (extractor : ExtractorSettings)
    (fallback : Option String) :
    Related R R (extract host extractor path fallback) (extract host extractor path fallback) := by
  have hinvoked (v : Command.Invocation) : Related R R
      (modify fun s => RunState.invoked s v : RunOn σ PUnit)
      (modify fun t => RunState.invoked t v) :=
    fun s t hst => Same.ok PUnit.unit (h.invoked s t v hst)
  have hrest : Related R R (do
      let v := Extraction.invocation extractor path
      report (.runningExtractor v.args v.directory)
      modify fun s => RunState.invoked s v
      let printed ← fromDisk fun d => host.tools.runner d v
      lift (Extraction.decode fallback printed)) (do
      let v := Extraction.invocation extractor path
      report (.runningExtractor v.args v.directory)
      modify fun s => RunState.invoked s v
      let printed ← fromDisk fun d => host.tools.runner d v
      lift (Extraction.decode fallback printed)) :=
    (h.related_report _).andThen fun _ _ => (hinvoked _).andThen fun _ _ =>
      (h.extractor _).fromDisk.andThen fun _ _ => related_lift _
  -- Without a command the first step fails already, and the rest does not matter.
  unfold Run.extract
  split
  · exact (related_throw _).andThen fun _ _ => hrest
  · exact hrest

/-- From whichever source, a run obtains the same descriptor. -/
theorem obtain (h : Indistinct R host request) (hfound : Found R host request path settings) :
    Related R R (obtain host settings path request) (obtain host settings path request) := by
  unfold Run.obtain
  dsimp only
  split
  · next file hfile => exact h.readDescriptor hfound (by rw [descriptorFile?, hfile]; rfl)
  · next file hnone hfile =>
    exact h.readDescriptor hfound (by rw [descriptorFile?, hnone, hfile]; rfl)
  · split
    · exact (related_throw _).andThen fun _ _ => h.extract _ _
    · exact h.extract _ _

/-- What a run may obtain is obtained on the disk of some state. -/
theorem exists_obtained {descriptor : Descriptor} (h : Indistinct R host request)
    (hgive : MayGive R (Run.obtain host settings path request) descriptor) :
    Reported R host request path settings descriptor := by
  have hload {file : Path} (hfile : descriptorFile? host settings request = some file)
      (hread : MayGive R (Run.readDescriptor (fallbackName? settings request) file) descriptor) :
      Reported R host request path settings descriptor := by
    obtain ⟨-, -, hload⟩ := hread.bind (h.related_report _)
    obtain ⟨s, t, hst, hload⟩ := exists_of_mayGive_fromDisk hload
    refine ⟨s, t, hst, ?_⟩
    rw [obtained, hfile]
    exact hload
  have hthrow {e : Failure} {f : PUnit → RunOn σ Descriptor}
      (hfail : MayGive R (throw e >>= f) descriptor) : False := by
    obtain ⟨s, t, s', -, hrun⟩ := hfail
    cases hrun
  unfold Run.obtain at hgive
  dsimp only at hgive
  -- A file that the request names, one that the settings name, or the extractor.
  split at hgive
  · next file hfile => exact hload (by rw [descriptorFile?, hfile]; rfl) hgive
  · next file hnone hfile => exact hload (by rw [descriptorFile?, hnone, hfile]; rfl) hgive
  · next hnone hfile =>
    split at hgive
    · exact (hthrow hgive).elim
    · next hcommand =>
      unfold Run.extract at hgive
      rw [if_neg hcommand] at hgive
      have hinvoked (v : Command.Invocation) : Related R R
          (modify fun s => RunState.invoked s v : RunOn σ PUnit)
          (modify fun t => RunState.invoked t v) :=
        fun s t hst => Same.ok PUnit.unit (h.invoked s t v hst)
      obtain ⟨-, -, hgive⟩ := hgive.bind (h.related_report _)
      obtain ⟨-, -, hgive⟩ := hgive.bind (hinvoked _)
      obtain ⟨printed, hprinted, hdecode⟩ := hgive.bind (h.extractor _).fromDisk
      obtain ⟨s, t, hst, hprinted⟩ := exists_of_mayGive_fromDisk hprinted
      refine ⟨s, t, hst, ?_⟩
      rw [obtained, descriptorFile?, hnone, hfile]
      dsimp only [Option.map_none, Option.or_none]
      rw [if_neg hcommand, extracted, hprinted]
      exact eq_ok_of_mayGive_lift hdecode

theorem rename (h : Indistinct R host request) (reported : Descriptor) :
    Related R R (rename request reported) (rename request reported) := by
  unfold Run.rename
  split
  · exact related_pure _
  · split
    · exact (h.related_report _).andThen fun _ _ => related_pure _
    · exact related_pure _

/-- The same declaration file is laid out from the same descriptor. -/
theorem assemble {reported : Descriptor} (h : Indistinct R host request)
    (hfound : Found R host request path settings)
    (hreported : Reported R host request path settings reported) :
    Related R R (assemble host settings (renamed request reported))
      (assemble host settings (renamed request reported)) := by
  refine (related_lift _).andThen fun names hnames => ?_
  have hnames : settings.names.resolve = .ok names :=
    mapError_eq_ok.1 (eq_ok_of_mayGive_lift hnames)
  cases hfile : DeclarationFile.assemble names (renamed request reported) with
  | error f => exact (h.related_reports _).andThen fun _ _ => related_throw _
  | ok file =>
    exact (h.related_report _).andThen fun _ _ =>
      (h.template path settings reported names file hfound hreported hnames hfile).fromDisk

omit [RunState τ] in
/-- Renaming has one possible result. -/
theorem eq_renamed {reported descriptor : Descriptor}
    (h : MayGive R (Run.rename request reported) descriptor) :
    descriptor = renamed request reported := by
  obtain ⟨s, t, s', -, hrun⟩ := h
  unfold Run.rename at hrun
  unfold renamed
  cases hgiven : given? request.moduleName with
  | none =>
    rw [hgiven] at hrun
    cases hrun
    rfl
  | some name =>
    rw [hgiven] at hrun
    dsimp only at hrun
    -- That another name is taken is reported, or it is not.
    split at hrun
    · cases hrun
      rfl
    · cases hrun
      rfl

/-- Up to its text, a run goes alike from states that cannot be told apart. -/
theorem make (h : Indistinct R host request) (hpath : project host request = .ok path) :
    Related R R (make host path request) (make host path request) := by
  refine (h.settings path hpath).fromDisk.andThen fun settings hsettings => ?_
  -- Descriptor and template are looked up under settings that were found on some related disk.
  obtain ⟨s, t, hst, hload⟩ := exists_of_mayGive_fromDisk hsettings
  have hfound : Found R host request path settings := ⟨s, t, hst, hpath, hload⟩
  refine (h.obtain hfound).andThen fun reported hgive => ?_
  refine (h.rename reported).andThen fun descriptor hdescriptor => ?_
  obtain rfl := eq_renamed hdescriptor
  exact (h.assemble hfound (h.exists_obtained hgive)).andThen fun _ _ => related_pure _

/-- A preview comes to the same on both. -/
theorem preview (h : Indistinct R host request) :
    Related R R (preview host request) (preview host request) := by
  refine (related_lift _).andThen fun path hpath => ?_
  exact (h.make (eq_ok_of_mayGive_lift hpath)).andThen fun _ _ => related_pure _

/-- A plan comes to the same on both. -/
theorem plan (h : Indistinct R host request) :
    Related R R (plan host request) (plan host request) := by
  refine (related_lift _).andThen fun path hpath => (h.related_report _).andThen fun _ _ => ?_
  exact (h.make (eq_ok_of_mayGive_lift hpath)).andThen fun _ _ => related_pure _

end Indistinct

/-! ### Replacements -/

variable {faults : Interruptions} {dryRun : Bool} {p : Plan}

/-- A state after the replacement of the file of a plan. -/
def replaced (faults : Interruptions) (host : Host) (p : Plan) (s : σ) : σ :=
  RunState.withDisk s (Disk.writeUnder faults (RunState.disk s) host.mask p.target p.content).disk

/-- Why the replacement of the file of a plan fails. -/
def replaceFault? (faults : Interruptions) (host : Host) (p : Plan) (s : σ) : Option Failure :=
  (Disk.writeUnder faults (RunState.disk s) host.mask p.target p.content).fault

/-- Carrying out a plan cannot tell related states apart, and leaves states that are related in
another way. -/
structure Uniform (R R' : σ → τ → Prop) (faults : Interruptions) (host : Host)
    (dryRun : Bool) (p : Plan) : Prop where
  le : ∀ s t, R s t → R' s t
  reported : ∀ s t e, R' s t → R' (RunState.reported s e) (RunState.reported t e)
  current : Agree R fun d => d.readExisting p.target
  replaced : dryRun = false → ∀ s t, R s t →
    R' (replaced faults host p s) (replaced faults host p t)
  fault : dryRun = false → ∀ s t, R s t →
    replaceFault? faults host p t = replaceFault? faults host p s

/-- What a write does is said by the replacement of the target, with its fault if it has one. -/
theorem write_run_eq (faults : Interruptions) (host : Host) (p : Plan) (s : σ) :
    write faults host p.target p.content s = match replaceFault? faults host p s with
      | none => .ok () (replaced faults host p s)
      | some f => .error f (replaced faults host p s) := by
  have hget : (get : RunOn σ σ) s = .ok s s := rfl
  rw [write, bind_run_of_ok _ hget, replaceFault?]
  cases (Disk.writeUnder faults (RunState.disk s) host.mask p.target p.content).fault with
  | none => rfl
  | some f => rfl

/-- Writes are related, if the replacement ends alike from related states. -/
theorem Uniform.write (h : Uniform R R' faults host false p) :
    Related R R' (write faults host p.target p.content)
      (write faults host p.target p.content) := by
  intro s t hst
  rw [write_run_eq, write_run_eq, h.fault rfl s t hst]
  cases replaceFault? faults host p s with
  | none => exact .ok () (h.replaced rfl s t hst)
  | some f => exact .error f (h.replaced rfl s t hst)

/-- A plan is carried out alike, if its target is read and replaced alike. -/
theorem Uniform.carryOut (h : Uniform R R' faults host dryRun p) :
    Related R R' (carryOut faults host dryRun p) (carryOut faults host dryRun p) := by
  -- Reports before the write keep the first relation, those after it the second.
  have hafter (e : Event) : Related R' R' (report e : RunOn σ Unit) (report e) :=
    fun s t hst => .ok () (h.reported s t e hst)
  have hbefore (e : Event) : Related R R' (report e : RunOn σ Unit) (report e) :=
    fun s t hst => hafter e s t (h.le s t hst)
  refine h.current.fromDisk.bind (fun current _ => ?_) h.le
  cases dryRun with
  | true => exact (hbefore _).bind (fun _ _ => related_pure _) fun _ _ hst => hst
  | false =>
    rw [if_neg Bool.false_ne_true, if_neg Bool.false_ne_true]
    split
    · refine h.write.bind (fun _ _ => ?_) fun _ _ hst => hst
      exact (hafter _).andThen fun _ _ => related_pure _
    · exact (hbefore _).bind (fun _ _ => related_pure _) fun _ _ hst => hst

/-- A run comes to the same on both. -/
theorem Indistinct.generateUnder (h : Indistinct R host request)
    (hplan : ∀ p, MayGive R (Run.plan host request) p → Uniform R R' faults host dryRun p)
    (hle : ∀ s t, R s t → R' s t) :
    Related R R' (generateUnder faults host request dryRun)
      (generateUnder faults host request dryRun) :=
  h.plan.bind (fun p hp => (hplan p hp).carryOut) hle

/-! ### What a run keeps -/

variable {I J : σ → Prop} {s : σ}

theorem report_pure_run {e : Event} {o : Outcome} (s : σ) :
    (do report e; pure o : RunOn σ Outcome) s = .ok o (RunState.reported s e) := rfl

/-- What every report keeps holds at the end of a run, unless the run ended well and its
replacement led to something else, which then holds. -/
theorem carryOut_keeps (dryRun : Bool) (hI : ∀ s e, I s → I (RunState.reported s e))
    (hJ : ∀ s e, J s → J (RunState.reported s e))
    (hwrite : ∀ s, I s → I (replaced faults host p s) ∨
      replaceFault? faults host p s = none ∧ J (replaced faults host p s)) (hs : I s) :
    I (stateOf (carryOut faults host dryRun p s)) ∨
      ∃ o t, carryOut faults host dryRun p s = .ok o t ∧ dryRun = false ∧ o.changed = true ∧
        J t := by
  unfold carryOut
  cases hread : (RunState.disk s).readExisting p.target with
  | error f =>
    rw [bind_run_of_error _ (by rw [fromDisk_run, hread])]
    exact .inl hs
  | ok current =>
    rw [bind_run_of_ok _ (by rw [fromDisk_run, hread])]
    dsimp only
    split
    · exact .inl (hI s _ hs)
    · -- Only this branch writes; the others end with a report.
      next hdry =>
      split
      · next hchanged =>
        cases hfault : replaceFault? faults host p s with
        | some f =>
          have hrun := write_run_eq faults host p s
          rw [hfault] at hrun
          rw [bind_run_of_error _ hrun]
          -- A failed write leads to nothing else, so what was kept is kept.
          rcases hwrite s hs with hkept | ⟨hnone, -⟩
          · exact .inl hkept
          · rw [hfault] at hnone
            cases hnone
        | none =>
          have hrun := write_run_eq faults host p s
          rw [hfault] at hrun
          rw [bind_run_of_ok _ hrun, report_pure_run]
          rcases hwrite s hs with hkept | ⟨-, hother⟩
          · exact .inl (hI _ _ hkept)
          · exact .inr ⟨_, _, rfl, Bool.eq_false_iff.2 hdry, hchanged, hJ _ _ hother⟩
      · exact .inl (hI s _ hs)

/-- A property that reports and invocations keep is kept until the plan is made. -/
theorem plan_keeps (hreported : ∀ s e, I s → I (RunState.reported s e))
    (hinvoked : ∀ s v, I s → I (RunState.invoked s v)) (hs : I s) :
    I (stateOf (plan host request s)) :=
  ((indistinct_self hreported hinvoked).plan s s ⟨rfl, hs⟩).state.2

/-- A preview keeps what reports and invocations keep. -/
theorem preview_keeps (hreported : ∀ s e, I s → I (RunState.reported s e))
    (hinvoked : ∀ s v, I s → I (RunState.invoked s v)) (hs : I s) :
    I (stateOf (preview host request s)) :=
  ((indistinct_self hreported hinvoked).preview s s ⟨rfl, hs⟩).state.2

/-- A run keeps what reports and invocations keep, up to its write; after that a property of the
written state, which reports keep, takes its place. -/
theorem generateUnder_keeps {J : Plan → σ → Prop}
    (hreported : ∀ s e, I s → I (RunState.reported s e))
    (hinvoked : ∀ s v, I s → I (RunState.invoked s v))
    (hJ : ∀ p s e, J p s → J p (RunState.reported s e))
    (hwrite : ∀ p s, I s → I (replaced faults host p s) ∨
      replaceFault? faults host p s = none ∧ J p (replaced faults host p s)) (hs : I s) :
    I (stateOf (generateUnder faults host request dryRun s)) ∨
      ∃ p s' o t, plan host request s = .ok p s' ∧
        generateUnder faults host request dryRun s = .ok o t ∧ dryRun = false ∧
        o.changed = true ∧ J p t := by
  have hplan : I (stateOf (plan host request s)) := plan_keeps hreported hinvoked hs
  unfold generateUnder
  cases hrun : plan host request s with
  | error f s' =>
    rw [hrun] at hplan
    rw [bind_run_of_error _ hrun]
    exact .inl hplan
  | ok p s' =>
    rw [hrun] at hplan
    rw [bind_run_of_ok _ hrun]
    -- The plan has kept it, so it holds where the plan is carried out.
    rcases carryOut_keeps dryRun hreported (hJ p) (hwrite p) hplan with
      hkept | ⟨o, t, hend, hdry, hchanged, ht⟩
    · exact .inl hkept
    · exact .inr ⟨p, s', o, t, rfl, hend, hdry, hchanged, ht⟩

end BoundaryTypes.Run
