/-
  `Reading` — the steps of a run that only read.

  Up to the moment at which a run writes, all its steps report, invoke and read, and what
  they give is a function of the disk alone (`Reads`). This passes from steps to their
  sequences, so that it holds for a whole `plan` and for a `preview`.
-/
import BoundaryTypes.Proofs.Outcome
import BoundaryTypes.Run

namespace BoundaryTypes.Run

open Outcome

variable {α β : Type} {x : RunM α} {f : α → RunM β} {a a' b : Activity} {v : α} {e : Failure}

/-- A step gives what `r` makes of the disk, and leaves the disk alone. -/
def Reads (x : RunM α) (r : Disk → Except Failure α) : Prop :=
  ∀ a, (∃ v a', x a = .ok v a' ∧ r a.disk = .ok v ∧ a'.disk = a.disk) ∨
    ∃ e a', x a = .error e a' ∧ r a.disk = .error e ∧ a'.disk = a.disk

/-- A step gives what it makes of the disk, and leaves the disk alone. -/
def ReadsOnly (x : RunM α) : Prop := ∃ r, Reads x r

/-! ### Sequences -/

/-- What a sequence gives is what its steps give of one and the same disk: the first one leaves the
disk to the second as it was. -/
theorem Reads.bind {r : Disk → Except Failure α} {g : α → Disk → Except Failure β}
    (hx : Reads x r) (hf : ∀ v, Reads (f v) (g v)) :
    Reads (x >>= f) fun d => r d >>= fun v => g v d := by
  intro a
  rcases hx a with ⟨v, t, hrun, hr, hdisk⟩ | ⟨e, t, hrun, hr, hdisk⟩
  · have hthen : (r a.disk >>= fun v => g v a.disk) = g v t.disk := by
      rw [hr, hdisk]
      rfl
    rw [bind_run_of_ok f hrun]
    dsimp only
    rw [hthen, ← hdisk]
    exact hf v t
  · refine .inr ⟨e, t, bind_run_of_error f hrun, ?_, hdisk⟩
    dsimp only
    rw [hr]
    rfl

/-- A sequence of steps that only read only reads. -/
theorem ReadsOnly.bind (hx : ReadsOnly x) (hf : ∀ v, ReadsOnly (f v)) : ReadsOnly (x >>= f) := by
  obtain ⟨r, hr⟩ := hx
  exact ⟨_, hr.bind fun v => (hf v).choose_spec⟩

theorem reads_pure (v : α) : Reads (pure v) fun _ => .ok v :=
  fun a => .inl ⟨v, a, rfl, rfl, rfl⟩

theorem readsOnly_pure (v : α) : ReadsOnly (pure v) := ⟨_, reads_pure v⟩

/-- A step that fails does so on every disk. -/
theorem readsOnly_throw (e : Failure) : ReadsOnly (throw e : RunM α) :=
  ⟨fun _ => .error e, fun a => .inr ⟨e, a, rfl, rfl, rfl⟩⟩

/-- To note something of the activity is to read nothing, if the disk stays. -/
theorem reads_modify {g : Activity → Activity} (h : ∀ a, (g a).disk = a.disk) :
    Reads (modify g) fun _ => .ok ⟨⟩ :=
  fun a => .inl ⟨⟨⟩, g a, rfl, rfl, h a⟩

theorem reads_report (e : Event) : Reads (report e) fun _ => .ok () := reads_modify fun _ => rfl

theorem readsOnly_report (e : Event) : ReadsOnly (report e) := ⟨_, reads_report e⟩

theorem disk_activity (a : Activity) : RunState.disk a = a.disk := rfl

/-- A successful look at the disk leaves the activity as it was. -/
theorem fromDisk_run_of_ok {g : Disk → Except Failure α} (h : g a.disk = .ok v) :
    fromDisk g a = .ok v a := by
  have hget : (get : RunM Activity) a = .ok a a := rfl
  rw [fromDisk, bind_run_of_ok _ hget, disk_activity, h]
  rfl

/-- A failing look at the disk leaves the activity as it was. -/
theorem fromDisk_run_of_error {g : Disk → Except Failure α} (h : g a.disk = .error e) :
    fromDisk g a = .error e a := by
  have hget : (get : RunM Activity) a = .ok a a := rfl
  rw [fromDisk, bind_run_of_ok _ hget, disk_activity, h]
  rfl

/-- A reading of the disk reads what it says. -/
theorem reads_fromDisk (g : Disk → Except Failure α) : Reads (fromDisk g) g := by
  intro a
  cases hg : g a.disk with
  | ok v => exact .inl ⟨v, a, fromDisk_run_of_ok hg, rfl, rfl⟩
  | error e => exact .inr ⟨e, a, fromDisk_run_of_error hg, rfl, rfl⟩

theorem readsOnly_fromDisk (g : Disk → Except Failure α) : ReadsOnly (fromDisk g) :=
  ⟨g, reads_fromDisk g⟩

/-- What does not depend on the disk reads nothing of it. -/
theorem readsOnly_lift (r : Except Failure α) : ReadsOnly (lift r) := readsOnly_fromDisk _

/-- A loop over a list only reads, if its body does. -/
theorem readsOnly_forIn {γ : Type} {es : List γ} {g : γ → PUnit → RunM (ForInStep PUnit)}
    (h : ∀ e u, ReadsOnly (g e u)) (u : PUnit) : ReadsOnly (forIn es u g) := by
  induction es generalizing u with
  | nil => exact readsOnly_pure u
  | cons e rest ih =>
    rw [List.forIn_cons]
    refine (h e u).bind fun step => ?_
    cases step with
    | done u => exact readsOnly_pure u
    | yield u => exact ih u

/-! ### What follows for outcomes -/

/-- The disk is as before after a step that only reads. -/
theorem ReadsOnly.disk_of_ok (h : ReadsOnly x) (hrun : x a = .ok v a') : a'.disk = a.disk := by
  obtain ⟨r, hr⟩ := h
  rcases hr a with ⟨w, t, hx, -, hdisk⟩ | ⟨e, t, hx, -, -⟩
  · rw [hrun] at hx
    cases hx
    exact hdisk
  · rw [hrun] at hx
    cases hx

theorem ReadsOnly.disk_of_error (h : ReadsOnly x) (hrun : x a = .error e a') :
    a'.disk = a.disk := by
  obtain ⟨r, hr⟩ := h
  rcases hr a with ⟨w, t, hx, -, -⟩ | ⟨e, t, hx, -, hdisk⟩
  · rw [hrun] at hx
    cases hx
  · rw [hrun] at hx
    cases hx
    exact hdisk

/-- What a step reads depends on nothing but the disk. -/
theorem ReadsOnly.ok_of_disk_eq (h : ReadsOnly x) (hrun : x a = .ok v a') (hb : b.disk = a.disk) :
    ∃ b', x b = .ok v b' := by
  obtain ⟨r, hr⟩ := h
  rcases hr a with ⟨w, t, hx, hw, -⟩ | ⟨e, t, hx, -, -⟩
  · rw [hrun] at hx
    cases hx
    rcases hr b with ⟨w', t', hx', hw', -⟩ | ⟨e', t', -, hw', -⟩
    · rw [hb, hw] at hw'
      cases hw'
      exact ⟨t', hx'⟩
    · rw [hb, hw] at hw'
      cases hw'
  · rw [hrun] at hx
    cases hx

/-! ### The steps before a run writes -/

/-- A descriptor in a file is read and nothing else. -/
theorem readsOnly_readDescriptor (fallback : Option String) (path : Path) :
    ReadsOnly (readDescriptor fallback path) :=
  (readsOnly_report _).bind fun _ => readsOnly_fromDisk _

/-- The extractor is started, but what it prints is a function of the disk, and its invocation is
only noted. -/
theorem readsOnly_extract (host : Host) (settings : ExtractorSettings) (project : Path)
    (fallback : Option String) : ReadsOnly (extract host settings project fallback) := by
  have hrest : ReadsOnly (do
      let v := Extraction.invocation settings project
      report (.runningExtractor v.args v.directory)
      modify fun a => { a with invocations := a.invocations ++ [v] }
      let printed ← fromDisk fun d => host.tools.runner d v
      lift (Extraction.decode fallback printed) : RunM Descriptor) := by
    refine (readsOnly_report _).bind fun _ => ?_
    refine ReadsOnly.bind ⟨_, reads_modify fun _ => rfl⟩ fun _ => ?_
    exact (readsOnly_fromDisk _).bind fun _ => readsOnly_lift _
  unfold extract
  split
  · exact (readsOnly_throw _).bind fun _ => hrest
  · exact hrest

/-- From whichever source a descriptor comes, it is only read. -/
theorem readsOnly_obtain (host : Host) (settings : Settings) (project : Path) (request : Request) :
    ReadsOnly (obtain host settings project request) := by
  unfold obtain
  dsimp only
  split
  · exact readsOnly_readDescriptor _ _
  · exact readsOnly_readDescriptor _ _
  · split
    · exact (readsOnly_throw _).bind fun _ => readsOnly_extract _ _ _ _
    · exact readsOnly_extract _ _ _ _

theorem readsOnly_rename (request : Request) (d : Descriptor) : ReadsOnly (rename request d) := by
  unfold rename
  split
  · exact readsOnly_pure _
  · split
    · exact (readsOnly_report _).bind fun _ => readsOnly_pure _
    · exact readsOnly_pure _

/-- The declaration file is put together in memory, and its template is read. -/
theorem readsOnly_assemble (host : Host) (settings : Settings) (d : Descriptor) :
    ReadsOnly (assemble host settings d) := by
  refine (readsOnly_lift _).bind fun names => ?_
  split
  · next f hf =>
    refine ReadsOnly.bind (readsOnly_forIn (fun e u => ?_) _) fun _ => readsOnly_throw _
    exact (readsOnly_report e).bind fun _ => readsOnly_pure _
  · refine (readsOnly_report _).bind fun _ => ?_
    exact readsOnly_fromDisk _

/-- Up to the text of its declaration file, a run only reads. -/
theorem readsOnly_make (host : Host) (project : Path) (request : Request) :
    ReadsOnly (make host project request) := by
  refine (readsOnly_fromDisk _).bind fun settings => ?_
  refine (readsOnly_obtain host settings project request).bind fun d => ?_
  refine (readsOnly_rename request d).bind fun d => ?_
  exact (readsOnly_assemble host settings d).bind fun _ => readsOnly_pure _

/-- A run writes nothing before its plan is made. -/
theorem readsOnly_plan (host : Host) (request : Request) : ReadsOnly (plan host request) := by
  refine (readsOnly_lift _).bind fun path => ?_
  refine (readsOnly_report _).bind fun _ => ?_
  exact (readsOnly_make host path request).bind fun _ => readsOnly_pure _

end BoundaryTypes.Run
