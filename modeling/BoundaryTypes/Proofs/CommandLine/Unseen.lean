/-
  `Unseen` — a log file that the run does not see.

  A call with a log file at a place that its run neither reads nor writes does what it does without
  one: it says the same, reports the same, ends in the same way. For both runs go beside the run
  that acts on an activity, whose reports nobody takes (`Task.related_run`), and what is seen of
  them can be told from that one (`Call.seen_ended`).
-/
import BoundaryTypes.CommandLine.Performance
import BoundaryTypes.Proofs.Logger.Handlers
import BoundaryTypes.Proofs.Run.Related

namespace BoundaryTypes

open Outcome

/-- A replacement that stays away from the place at which two disks differ ends alike. -/
theorem Disk.Aside.writeUnder {k? : Option Place} {d d' : Disk} {target : Path}
    (h : Disk.Aside k? d d') (haway : ∀ k, k? = some k → Replacement.Away (· = k) False target)
    (faults : Interruptions) (mask : Nat) (content : String) :
    Disk.Aside k? (Disk.writeUnder faults d mask target content).disk
        (Disk.writeUnder faults d' mask target content).disk ∧
      (Disk.writeUnder faults d' mask target content).fault =
        (Disk.writeUnder faults d mask target content).fault := by
  cases k? with
  | none =>
    obtain rfl : d' = d := h
    exact ⟨.refl _ _, rfl⟩
  | some k => exact Disk.Alike.writeUnder h (haway k rfl) faults mask content

/-! ### Places that a run neither reads nor writes -/

namespace Run

variable {k : Place} {host : Host} {request : Request} {dryRun : Bool} {d d' : Disk}

/-- Making the text of a project does not read a place. -/
structure Unread (k : Place) (host : Host) (request : Request) (d : Disk) : Prop where
  project : ∀ path, Run.project host request = .ok path → Disk.Clear (· = k) False path
  settings : ∀ path file, Run.project host request = .ok path → Settings.fileOf d path = .ok file →
    Disk.Unseen (· = k) False file
  descriptor : ∀ path settings file, Loads host request d path settings →
    descriptorFile? host settings request = some file → Disk.Unseen (· = k) False file
  extractor : ∀ d' v, Disk.Alike (· = k) False d d' →
    host.tools.runner d' v = host.tools.runner d v
  template : ∀ path settings f directory file, Loads host request d path settings →
    Assembles host request d path settings f → settings.templates = some directory →
    Template.LooksAt host.tools.engine directory f d file → Disk.Unseen (· = k) False file

/-- Bringing the file of a project up to date neither reads nor writes a place. A dry run makes no
temporary file. -/
structure Untouched (k : Place) (host : Host) (request : Request) (dryRun : Bool) (d : Disk) : Prop
    extends Unread k host request d where
  target : ∀ p, planned host request d = .ok p → Disk.Unseen (· = k) False p.target
  temporary : dryRun = false → ∀ p n, planned host request d = .ok p →
    Disk.Clear (· = k) False (Replacement.temporaryPath p.target n)

/-- No lookup passes a place, if none of the paths that lead along it is that of the place. -/
theorem clear_of_first {path : Path} (h : ∀ n ≤ path.parts.length, (path.first n).place ≠ k) :
    Disk.Clear (· = k) False path := by
  refine .inr fun n => ?_
  rcases Nat.le_total n path.parts.length with hle | hle
  · exact h n hle
  · have hwhole := h path.parts.length (Nat.le_refl _)
    rw [Path.first, List.take_of_length_le hle]
    rwa [Path.first_length] at hwhole

/-- Up to its name, a temporary file lies where the target does. -/
theorem clear_temporaryPath {target : Path} {n : Nat}
    (hparent : Disk.Clear (· = k) False target.parent)
    (hk : (Replacement.temporaryPath target n).place ≠ k) :
    Disk.Clear (· = k) False (Replacement.temporaryPath target n) := by
  refine clear_of_first fun m hm => ?_
  have hparts := Replacement.parts_temporaryPath target n
  -- All paths along it but the last lead along that of the directory.
  rcases Nat.lt_or_eq_of_le hm with hlt | rfl
  · have hle : m ≤ target.parts.dropLast.length := by
      rw [hparts, List.length_append] at hlt
      exact Nat.le_of_lt_succ hlt
    have hsame : (Replacement.temporaryPath target n).first m = target.parent.first m := by
      rw [Path.first, hparts, List.take_append_of_le_length hle]
      rfl
    rw [hsame]
    exact hparent.resolve_left id m
  · rwa [Path.first_length]

theorem load_alike {fallback : Option String} {file : Path} (h : Disk.Alike (· = k) False d d')
    (hfile : Disk.Unseen (· = k) False file) :
    Extraction.load d' fallback file = Extraction.load d fallback file := by
  rw [Extraction.load, Extraction.load, h.readText hfile.clear hfile.place]

/-! ### Runs beside an activity -/

/-- A state with a logger goes beside an activity: the same was reported, the console has shown of
it what reaches its level, and the disks are the same but for the log file. -/
structure Beside (c : Console) (k? : Option Place) (a : Activity) (t : Logged) : Prop where
  aside : Disk.Aside k? a.disk t.disk
  records : t.records = a.events
  configured : t.Configured c k?

variable {c : Console} {k? : Option Place} {a : Activity} {t : Logged}

theorem Beside.reported (h : Beside c k? a t) (e : Event) :
    Beside c k? (RunState.reported a e) (t.report e) := by
  have hreported := h.configured.report e
  refine ⟨h.aside.trans hreported.aside, ?_, hreported.configured⟩
  rw [hreported.records, h.records]
  rfl

/-- Before it writes, a run beside an activity finds what it would find on the disk as it was. -/
def BesideFrom (d : Disk) (c : Console) (k? : Option Place) (a : Activity) (t : Logged) : Prop :=
  a.disk = d ∧ Beside c k? a t

theorem agree_besideFrom {α : Type} {g : Disk → Except Failure α}
    (h : ∀ k d', k? = some k → Disk.Alike (· = k) False d d' → g d' = g d) :
    Agree (BesideFrom d c k?) g := by
  rintro a t ⟨rfl, hbeside⟩
  have haside := hbeside.aside
  cases k? with
  | none => exact congrArg g (Eq.symm haside)
  | some k => exact (h k t.disk rfl haside).symm

theorem indistinct_besideFrom (h : ∀ k, k? = some k → Unread k host request d) :
    Indistinct (BesideFrom d c k?) host request where
  reported := fun a t e ⟨hdisk, hbeside⟩ => ⟨hdisk, hbeside.reported e⟩
  invoked := fun a t v ⟨hdisk, hbeside⟩ =>
    ⟨hdisk, hbeside.aside, hbeside.records, hbeside.configured⟩
  settings := fun path hpath => agree_besideFrom fun k d' hk halike =>
    halike.load ((h k hk).project path hpath) fun file => (h k hk).settings path file hpath
  descriptor := by
    rintro path settings file fallback ⟨a, t, ⟨rfl, -⟩, hloads⟩ hfile
    exact agree_besideFrom fun k d' hk halike =>
      load_alike halike ((h k hk).descriptor path settings file hloads hfile)
  extractor := fun v => agree_besideFrom fun k d' hk halike => (h k hk).extractor d' v halike
  template := by
    rintro path settings reported names f ⟨a, t, ⟨rfl, -⟩, hloads⟩ ⟨b, u, ⟨hb, -⟩, hreported⟩
      hnames hassemble
    have hobtained : obtained host settings path request a.disk = .ok reported := hb ▸ hreported
    have hassembles : Assembles host request a.disk path settings f :=
      ⟨reported, names, hobtained, hnames, hassemble⟩
    exact agree_besideFrom fun k d' hk halike => halike.text fun directory file =>
      (h k hk).template path settings f directory file hloads hassembles

theorem uniform_besideFrom {p : Plan} (hplan : planned host request d = .ok p)
    (h : ∀ k, k? = some k → Untouched k host request dryRun d) :
    Uniform (BesideFrom d c k?) (Beside c k?) .never host dryRun p := by
  have haway (hdry : dryRun = false) (k : Place) (hk : k? = some k) :
      Replacement.Away (· = k) False p.target :=
    have hseen := (h k hk).target p hplan
    ⟨hseen.clear, hseen.place, fun n => (h k hk).temporary hdry p n hplan⟩
  have hwrite (hdry : dryRun = false) {a : Activity} {t : Logged} (h : Beside c k? a t) :=
    h.aside.writeUnder (haway hdry) .never host.mask p.content
  refine ⟨fun a t h => h.2, fun a t e h => h.reported e, ?_, ?_, ?_⟩
  · exact agree_besideFrom fun k d' hk halike =>
      have hseen := (h k hk).target p hplan
      halike.readExisting hseen.clear hseen.place
  · rintro hdry a t ⟨-, hbeside⟩
    exact ⟨(hwrite hdry hbeside).1, hbeside.records, hbeside.configured.logger,
      hbeside.configured.shown⟩
  · rintro hdry a t ⟨-, hbeside⟩
    exact (hwrite hdry hbeside).2

theorem planned_of_mayGive {p : Plan} (h : MayGive (BesideFrom d c k?) (plan host request) p) :
    planned host request d = .ok p := by
  obtain ⟨a, t, a', ⟨rfl, -⟩, hrun⟩ := h
  exact planned_of_run hrun

/-- A run beside an activity plans no more than is planned without a logger. -/
theorem planned_of_besideFrom {p : Plan} {t' : Logged} (h : BesideFrom d c k? a t)
    (hunread : ∀ k, k? = some k → Unread k host request d)
    (hrun : plan host request t = .ok p t') : planned host request d = .ok p := by
  have hsame := (indistinct_besideFrom hunread).plan a t h
  rw [hrun] at hsame
  cases hactivity : plan host request a with
  | ok p' a' =>
    rw [hactivity] at hsame
    cases hsame
    exact h.1 ▸ planned_of_run hactivity
  | error e a' =>
    rw [hactivity] at hsame
    cases hsame

end Run

namespace CommandLine

open Run

/-! ### Calls -/

variable {k : Place} {k? : Option Place} {host : Host} {d d' : Disk} {c : Console} {task : Task}
  {call : Call} {conditions : Conditions} {log : Option LogFile}

/-- The run of a task neither reads nor writes a place. -/
def Task.Ignores (k : Place) (host : Host) (d : Disk) : Task → Prop
  | .generate request dryRun => Untouched k host request dryRun d
  | .preview request => Unread k host request d
  | .serve _ _ => True

/-- The run of a task comes to the same with a logger as without one, if it does not see the log
file. -/
theorem Task.related_run (h : ∀ k, k? = some k → task.Ignores k host d) :
    Related (BesideFrom d c k?) (Beside c k?) (task.run host) (task.run host) := by
  have hle : ∀ a t, BesideFrom d c k? a t → Beside c k? a t := fun _ _ h => h.2
  cases task with
  | generate request dryRun =>
    have hunread : ∀ k, k? = some k → Unread k host request d := fun k hk => (h k hk).toUnread
    have hrun : Related (BesideFrom d c k?) (Beside c k?)
        (Run.generate host request dryRun) (Run.generate host request dryRun) :=
      (indistinct_besideFrom hunread).generateUnder
        (fun p hp => uniform_besideFrom (planned_of_mayGive hp) h) hle
    exact hrun.bind (fun o _ => related_pure _) fun _ _ h => h
  | preview request =>
    exact fun a t hat => ((indistinct_besideFrom h).preview a t hat).mono hle
  | serve interface port => exact fun a t hat => .ok "" (hle a t hat)

/-- What is seen of a performance by someone who does not look at the disk. -/
structure Impression where
  status : Nat
  out : String
  err : String
  served : List (String × Int)
  records : List Event
  escaped : Option Failure := none

/-- What is seen of a performance, but for the disk. -/
def Performance.impression (q : Performance) : Impression :=
  ⟨q.status, q.out, q.err, q.served, q.records, q.escaped⟩

namespace Call

/-- What is seen of a call whose run comes to this when nobody takes its reports. -/
def impressionOf (call : Call) : EStateM.Result Failure Activity String → Impression
  | .ok out a => ⟨0, out, call.console.display a.events, call.task.served, a.events, none⟩
  | .error failure a =>
    let records := a.events ++ call.eventsOf failure
    let said := call.console.display records ++ failureText call.task.command failure
    ⟨1, "", said, [], records, none⟩

/-- What is seen of a run beside an activity can be told from the activity. -/
theorem impression_ended {r : EStateM.Result Failure Activity String}
    {r' : EStateM.Result Failure Logged String} (h : Same (Beside call.console k?) r r') :
    (call.ended r').impression = call.impressionOf r := by
  cases h with
  | ok out h =>
    rw [ended, Performance.impression, impressionOf, h.configured.shown, h.records]
  | error failure h =>
    obtain ⟨hlast, hrecords⟩ := h.configured.reports (call.eventsOf failure)
    rw [ended, Performance.impression, impressionOf]
    dsimp only
    rw [hlast.shown, hrecords, h.records]

theorem perform_of_openLog {logger : Logger} (hopen : call.openLog conditions d = .ok (d', log)) :
    call.perform conditions logger d =
      call.ended (call.task.run conditions.host (call.started conditions logger d' log)) := by
  rw [perform, hopen]

theorem configured_started (logger : Logger) (hlog : log.map LogFile.place = k?) :
    (call.started conditions logger d log).Configured call.console k? :=
  ⟨⟨log, logger.configured_eq _ _, hlog⟩, rfl⟩

/-- **A call whose run does not see its log file** leaves the impression of its run without any
logger. -/
theorem impression_perform (logger : Logger)
    (hopen : call.openLog conditions d = .ok (d', log))
    (haside : Disk.Aside (log.map LogFile.place) d d')
    (h : ∀ f, log = some f → call.task.Ignores f.place conditions.host d) :
    (call.perform conditions logger d).impression =
      call.impressionOf (call.task.run conditions.host { disk := d }) := by
  have hignores : ∀ k, log.map LogFile.place = some k → call.task.Ignores k conditions.host d := by
    intro k hk
    obtain ⟨f, hf, rfl⟩ := Option.map_eq_some_iff.1 hk
    exact h f hf
  have hstart : BesideFrom d call.console (log.map LogFile.place) { disk := d }
      (call.started conditions logger d' log) :=
    ⟨rfl, haside, rfl, configured_started logger rfl⟩
  rw [perform_of_openLog hopen]
  exact impression_ended (Task.related_run hignores _ _ hstart)

end Call

end CommandLine

end BoundaryTypes
