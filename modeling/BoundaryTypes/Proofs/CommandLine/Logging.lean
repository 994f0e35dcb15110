/-
  `Logging` — command lines of one process do not disturb each other's records.

  Whatever a logger was configured for, it is configured anew for the next run, and nothing of the
  old configuration is left (`Logger.configured_eq`). So a command line is carried out as in a
  process of its own, and its console shows exactly the records that reach its level. A log file
  gets every record of its run, and what it holds stays until a run replaces it or names it again
  (`Process.receives`, `Process.file?_afterAll`).
-/
import BoundaryTypes.Proofs.CommandLine.Unseen
import BoundaryTypes.Proofs.Run.Wholesale

namespace BoundaryTypes

open Outcome

/-- The text that a run reads its message from holds no half of a surrogate pair. -/
structure Run.WholeMessage (host : Host) (request : Request) (d : Disk) : Prop where
  file : ∀ path settings file text, Loads host request d path settings →
    descriptorFile? host settings request = some file → d.readText file = .ok text →
    Json.isWhole text = true
  printed : ∀ path settings text, Loads host request d path settings →
    descriptorFile? host settings request = none →
    host.tools.runner d (Extraction.invocation settings.extractor path) = .ok text →
    Json.isWhole text = true

namespace CommandLine

open Run

variable {k : Place} {k? : Option Place} {host : Host} {d d' : Disk} {c : Console} {task : Task}
  {call : Call} {conditions : Conditions} {logger : Logger} {log : Option LogFile} {f : LogFile}
  {s : Logged}

/-! ### What a run keeps -/

/-- The run of a task ends well, and its replacement led to something. -/
inductive Task.Replaced (J : Plan → Logged → Prop) (host : Host) (s : Logged) : Task → Prop
  | intro {request : Request} {p : Plan} {s' t : Logged} {o : Outcome}
      (hplan : Run.plan host request s = .ok p s')
      (hrun : Run.generate host request false s = .ok o t) (hchanged : o.changed = true)
      (hlast : J p t) : Replaced J host s (.generate request false)

/-- What every report keeps holds after the run of a task, unless it ended well and its replacement
led to something else. -/
theorem Task.run_keeps {I : Logged → Prop} {J : Plan → Logged → Prop}
    (hI : ∀ s e, I s → I (s.report e)) (hJ : ∀ p s e, J p s → J p (s.report e))
    (hwrite : ∀ p s, I s → I (replaced .never host p s) ∨
      replaceFault? .never host p s = none ∧ J p (replaced .never host p s)) (hs : I s) :
    I (stateOf (task.run host s)) ∨ task.Replaced J host s := by
  have hinvoked : ∀ (s : Logged) (v : Command.Invocation), I s → I (RunState.invoked s v) :=
    fun _ _ hs => hs
  cases task with
  | serve interface port => exact .inl hs
  | preview request => exact .inl (preview_keeps hI hinvoked hs)
  | generate request dryRun =>
    have hend : I (stateOf (Run.generate host request dryRun s)) ∨ _ :=
      generateUnder_keeps hI hinvoked hJ hwrite hs
    rcases hend with hkept | ⟨p, s', o, t, hplan, hrun, rfl, hchanged, hlast⟩
    · -- What the text of an outcome is made of does not change the state.
      refine .inl ?_
      rw [Task.run]
      cases hrun : Run.generate host request dryRun s with
      | ok o t =>
        rw [hrun] at hkept
        rw [bind_run_of_ok _ hrun]
        exact hkept
      | error e t =>
        rw [hrun] at hkept
        rw [bind_run_of_error _ hrun]
        exact hkept
    · exact .inr (.intro hplan hrun hchanged hlast)

/-- What every report keeps holds at the end of a call, if it holds after the run. -/
theorem Call.exists_ended {I : Logged → Prop} (hI : ∀ s e, I s → I (s.report e))
    {r : EStateM.Result Failure Logged String} (h : I (stateOf r)) :
    ∃ t, I t ∧ (call.ended r).disk = t.disk ∧ (call.ended r).records = t.records := by
  have hreports (es : List Event) : ∀ s, I s → I (es.foldl Logged.report s) := by
    induction es with
    | nil => exact fun _ hs => hs
    | cons e rest ih => exact fun s hs => ih _ (hI s e hs)
  cases r with
  | ok out s => exact ⟨s, h, rfl, rfl⟩
  -- A failure is reported before the end.
  | error failure s => exact ⟨_, hreports _ s h, rfl, rfl⟩

/-! ### Consoles -/

namespace Call

/-- The level from which the console shows records: all of them when verbose, else warnings and
faults when the text goes to the output, else nothing below the ordinary. -/
def threshold (call : Call) : Level :=
  if call.verbose then .debug else if call.task.command = .preview then .warning else .info

/-- The last words of a call: none if it ended well, or left its failure to the caller, and else
the words for the failure. -/
inductive Closes (call : Call) (q : Performance) : String → Prop
  | well (h : q.status = 0) : Closes call q ""
  | failed (failure : Failure) (h : q.status = 1) :
    Closes call q (failureText call.task.command failure)
  | escaped (failure : Failure) (h : q.status = 1) (hescaped : q.escaped = some failure) :
    Closes call q ""

/-- What is on the console after a call: the records that reach its level, each once and in their
order, and then its last words. -/
def Shows (call : Call) (q : Performance) : Prop :=
  ∃ closing, call.Closes q closing ∧
    q.err = String.join ((q.records.filter fun e => call.threshold.rank ≤ e.level.rank).map
      call.console.line) ++ closing

theorem threshold_console (call : Call) : call.console.threshold = call.threshold := by
  rw [console, Console.ofOptions, threshold]
  simp only [decide_eq_true_eq]

theorem display_console (call : Call) (es : List Event) : call.console.display es =
    String.join ((es.filter fun e => call.threshold.rank ≤ e.level.rank).map
      call.console.line) := by
  rw [Console.display, Console.shown, call.threshold_console]

theorem shows_ended {r : EStateM.Result Failure Logged String}
    (h : (stateOf r).Configured call.console k?) : call.Shows (call.ended r) := by
  cases r with
  | ok out s =>
    refine ⟨"", .well rfl, ?_⟩
    rw [String.append_empty, ← display_console]
    exact h.shown
  | error failure s =>
    have hlast := (h.reports (call.eventsOf failure)).1
    refine ⟨_, .failed failure rfl, ?_⟩
    rw [← display_console]
    exact congrArg (· ++ failureText call.task.command failure) hlast.shown

theorem configured_run (h : s.Configured c k?) : (stateOf (task.run host s)).Configured c k? := by
  have hkeeps : (stateOf (task.run host s)).Configured c k? ∨
      task.Replaced (fun _ _ => False) host s :=
    Task.run_keeps (fun _ e hs => (hs.report e).configured) (fun _ _ _ hlast => hlast)
      (fun _ _ hs => .inl ⟨hs.logger, hs.shown⟩) h
  rcases hkeeps with hkept | ⟨_, _, _, hlast⟩
  · exact hkept
  · exact hlast.elim

/-- A console shows exactly the records that reach its level. -/
theorem shows_perform (conditions : Conditions) (logger : Logger) (d : Disk) (call : Call) :
    call.Shows (call.perform conditions logger d) := by
  rw [perform]
  cases call.openLog conditions d with
  | error failure => exact ⟨"", .escaped failure rfl rfl, rfl⟩
  | ok opened => exact shows_ended (configured_run (configured_started logger rfl))

/-- Nothing of an earlier configuration is left. -/
theorem perform_eq (conditions : Conditions) (logger : Logger) (d : Disk) (call : Call) :
    call.perform conditions logger d = call.perform conditions .initial d := by
  have hstarted (d : Disk) (log : Option LogFile) :
      call.started conditions logger d log = call.started conditions .initial d log := by
    rw [started, logger.configured_eq]
    rfl
  rw [perform, perform]
  cases call.openLog conditions d with
  | error failure =>
    dsimp only
    rw [logger.configured_eq]
  | ok opened =>
    dsimp only
    rw [hstarted]

end Call

/-! ### Replacements -/

/-- A replacement fails, or its target is another, or the file is the new one. -/
theorem replaced_cases (p : Plan) (s : Logged) (k : Place) :
    (replaced .never host p s).disk.file? k = s.disk.file? k ∨
      replaceFault? .never host p s = none ∧ p.target.place = k ∧
        ∃ mode, (replaced .never host p s).disk.file? k = some (p.content.toUTF8, mode) := by
  by_cases h : replaceFault? .never host p s ≠ none ∨ k ≠ p.target.place
  · exact .inl (Disk.file?_writeUnder h)
  · obtain ⟨hnone, hplace⟩ := not_or.1 h
    have hfault := not_not.1 hnone
    obtain rfl := not_not.1 hplace
    have hsound := Disk.writeCourse_sound s.disk host.mask p.target p.content .never
    exact .inr ⟨hfault, rfl, _, (hsound.replaced hfault).held⟩

/-- The log file keeps everything, unless the run puts another file in its place. -/
theorem keeping_run {now : String} (h : s.Keeping c f now) :
    (stateOf (task.run host s)).Keeping c f now ∨
      task.Replaced (fun p _ => p.target.place = f.place) host s := by
  refine Task.run_keeps (fun _ e hs => Logged.Keeping.report hs e) (fun _ _ _ hlast => hlast)
    (fun p s hs => ?_) h
  rcases replaced_cases p s f.place with hsame | ⟨hnone, hplace, -⟩
  · refine .inl ⟨hs.time, hs.logger, ?_⟩
    exact Disk.file?_eq_some.1 (hsame.trans (Disk.file?_eq_some.2 hs.entry))
  · exact .inr ⟨hnone, hplace⟩

/-- A file that is not the log file is kept, unless the run puts another in its place. -/
theorem holding_run {file : Option (ByteArray × Nat)} (h : s.Holding c k? k file) :
    (stateOf (task.run host s)).Holding c k? k file ∨
      task.Replaced (fun p t => p.target.place = k ∧
        ∃ mode, t.Holding c k? k (some (p.content.toUTF8, mode))) host s := by
  refine Task.run_keeps (fun _ e hs => Logged.Holding.report hs e)
    (fun p s e ⟨hplace, mode, hs⟩ => ⟨hplace, mode, hs.report e⟩) (fun p s hs => ?_) h
  -- A replacement works at the disk alone; the console and its logger are as before.
  have hconfigured : (replaced .never host p s).Configured c k? :=
    ⟨hs.configured.logger, hs.configured.shown⟩
  rcases replaced_cases p s k with hsame | ⟨hnone, hplace, mode, hfile⟩
  · exact .inl ⟨hconfigured, hs.other, hsame.trans hs.file⟩
  · exact .inr ⟨hnone, hplace, mode, hconfigured, hs.other, hfile⟩

/-! ### Log files -/

/-- The text that a task reads its message from holds no half of a surrogate pair. A log file has no
bytes for such a half. -/
def Task.Whole (host : Host) (d : Disk) : Task → Prop
  | .generate request _ | .preview request => WholeMessage host request d
  | .serve _ _ => True

namespace Call

theorem opened_of_openLog (h : call.openLog conditions d = .ok (d', some f)) :
    LogFile.Opened d d' f := by
  unfold openLog at h
  cases hname : call.logFile with
  | none =>
    rw [hname] at h
    cases h
  | some name =>
    rw [hname] at h
    obtain ⟨⟨s, g⟩, hopen, heq⟩ := map_eq_ok.1 h
    cases heq
    exact LogFile.opened hopen

theorem keeping_started (call : Call) (conditions : Conditions) (logger : Logger)
    (h : d.entryAt? f.place = some f.entry) :
    (call.started conditions logger d (some f)).Keeping call.console f conditions.time := by
  -- At the start the log file has taken no record, so it is as it was opened.
  have hnil := f.taken_nil conditions.time
  refine ⟨rfl, ?_, ?_⟩
  · show logger.configured call.console (some f) =
      Logger.initial.configured call.console (some (f.taken conditions.time []))
    rw [hnil, logger.configured_eq]
  · show d.entryAt? f.place = some (f.taken conditions.time []).entry
    rw [hnil, h]

/-- A log file that cannot be opened leaves all files as they are. -/
theorem file?_refused (conditions : Conditions) (d : Disk) (call : Call) (k : Place) :
    (call.refused conditions d).file? k = d.file? k := by
  rw [refused]
  cases call.logFile with
  | none => rfl
  | some name => exact (LogFile.grown_refused conditions.host d name k).file?_eq

/-- Opening a log file leaves the other files as they are. -/
theorem file?_openLog (h : call.openLog conditions d = .ok (d', log))
    (hk : log.map LogFile.place ≠ some k) : d'.file? k = d.file? k := by
  cases log with
  | some f =>
    have hne : k ≠ f.place := fun heq => hk (congrArg some heq.symm)
    exact ((opened_of_openLog h).others k hne).file?_eq
  | none =>
    unfold openLog at h
    cases hname : call.logFile with
    | none =>
      rw [hname] at h
      cases h
      rfl
    | some name =>
      rw [hname] at h
      obtain ⟨_, -, heq⟩ := map_eq_ok.1 h
      cases heq

/-- A log file has every record at the end, unless the run puts another file in its place. -/
theorem file?_perform (hopen : call.openLog conditions d = .ok (d', some f)) (logger : Logger) :
    (call.perform conditions logger d).disk.file? f.place =
        some (f.bytes ++ (fileLog conditions.time
          (call.perform conditions logger d).records).toUTF8, f.mode) ∨
      call.task.Replaced (fun p _ => p.target.place = f.place) conditions.host
        (call.started conditions logger d' (some f)) := by
  have hstart := keeping_started call conditions logger (opened_of_openLog hopen).entry
  rw [perform_of_openLog hopen]
  have hreport (s : Logged) (e : Event) (hs : s.Keeping call.console f conditions.time) :
      (s.report e).Keeping call.console f conditions.time := hs.report e
  refine (keeping_run hstart).imp_left fun hkept => ?_
  obtain ⟨t, ht, hdisk, hrecords⟩ := exists_ended hreport hkept
  rw [hdisk, hrecords]
  exact Disk.file?_eq_some.2 ht.entry

end Call

namespace Process

variable {p : Process} {l : Line} {ls : List Line}

/-- A command line opens a log file. -/
inductive Opens (p : Process) (l : Line) : LogFile → Prop
  | intro {call : Call} {d : Disk} {f : LogFile} (hcall : Call.ofWords l.words = .ok call)
      (hopen : call.openLog l.conditions p.disk = .ok (d, some f)) : Opens p l f

/-- No half of a surrogate pair is in the message of a command line. -/
def Whole (p : Process) (l : Line) : Prop :=
  ∀ call d log, Call.ofWords l.words = .ok call → call.openLog l.conditions p.disk = .ok (d, log) →
    call.task.Whole l.conditions.host d

/-- A command line leads to a run that ends well and puts the text of its plan at a place. -/
inductive Writes (p : Process) (l : Line) : Place → String → Prop
  | intro {call : Call} {request : Request} {d : Disk} {log : Option LogFile} {plan : Plan}
      {s t : Logged} {o : Outcome} (hcall : Call.ofWords l.words = .ok call)
      (htask : call.task = .generate request false)
      (hopen : call.openLog l.conditions p.disk = .ok (d, log))
      (hplan : Run.plan l.conditions.host request
        (call.started l.conditions p.logger d log) = .ok plan s)
      (hrun : Run.generate l.conditions.host request false
        (call.started l.conditions p.logger d log) = .ok o t)
      (hchanged : o.changed = true) : Writes p l plan.target.place plan.content

/-- The file at a place receives every record of a command line, once and in their order, behind
what it held before. -/
def Receives (p : Process) (l : Line) (k : Place) : Prop :=
  ∃ old mode, (p.disk.file? k = some (old, mode) ∨ p.disk.file? k = none ∧ old = .empty) ∧
    (p.after l).disk.file? k =
      some (old ++ (fileLog l.conditions.time (p.perform l).records).toUTF8, mode)

/-- None of several command lines names the file at a place as its log file. -/
def Spares (p : Process) (ls : List Line) (k : Place) : Prop :=
  ∀ before l rest, ls = before ++ l :: rest → ∀ f, (p.afterAll before).Opens l f → f.place ≠ k

theorem perform_of_call (hcall : Call.ofWords l.words = .ok call) :
    p.perform l = call.perform l.conditions p.logger p.disk := by
  rw [perform, performIn, hcall]

theorem exists_writes {J : Plan → Logged → Prop} (hcall : Call.ofWords l.words = .ok call)
    (hopen : call.openLog l.conditions p.disk = .ok (d, log))
    (h : call.task.Replaced J l.conditions.host (call.started l.conditions p.logger d log)) :
    ∃ plan out t, p.Writes l plan.target.place plan.content ∧ J plan t ∧
      call.task.run l.conditions.host (call.started l.conditions p.logger d log) = .ok out t := by
  generalize htask : call.task = task at h
  cases h with
  | @intro request plan s t o hplan hrun hchanged hlast =>
    refine ⟨plan, outcomeText l.conditions.host.directory o, t,
      .intro hcall htask hopen hplan hrun hchanged, hlast, ?_⟩
    rw [Task.run, bind_run_of_ok _ hrun]
    rfl

/-- A run that neither reads nor writes its log file writes elsewhere. -/
theorem ne_of_writes {content : String} (h : p.Writes l k content)
    (hcall : Call.ofWords l.words = .ok call)
    (hopen : call.openLog l.conditions p.disk = .ok (d, some f))
    (haside : Disk.Aside (some f.place) p.disk d)
    (hignores : call.task.Ignores f.place l.conditions.host p.disk) : k ≠ f.place := by
  cases h with
  | intro hcall' htask hopen' hplan hrun hchanged =>
    cases hcall.symm.trans hcall'
    cases hopen.symm.trans hopen'
    rw [htask] at hignores
    have hstart : BesideFrom p.disk call.console (some f.place) { disk := p.disk }
        (call.started l.conditions p.logger d (some f)) :=
      ⟨rfl, haside, rfl, Call.configured_started p.logger rfl⟩
    -- The plan is what it would be on the disk without the log file, and such a plan does not lead
    -- there.
    have hplanned := planned_of_besideFrom hstart
      (fun k hk => Option.some.inj hk ▸ hignores.toUnread) hplan
    exact (hignores.target _ hplanned).place

/-- A log file receives every record, unless the run puts another file in its place. -/
theorem receives (h : p.Opens l f) :
    p.Receives l f.place ∨ ∃ content, p.Writes l f.place content := by
  cases h with
  | intro hcall hopen =>
    rcases Call.file?_perform hopen p.logger with hfile | hreplaced
    · refine .inl ⟨f.bytes, f.mode, (Call.opened_of_openLog hopen).before, ?_⟩
      rw [after, perform_of_call hcall]
      exact hfile
    · obtain ⟨plan, -, -, hwrites, hplace, -⟩ := exists_writes hcall hopen hreplaced
      exact .inr ⟨_, hplace ▸ hwrites⟩

/-- A log file that the run neither reads nor writes receives every record. -/
theorem receives_of_ignores (hcall : Call.ofWords l.words = .ok call)
    (hopen : call.openLog l.conditions p.disk = .ok (d, some f))
    (haside : Disk.Aside (some f.place) p.disk d)
    (hignores : call.task.Ignores f.place l.conditions.host p.disk) :
    p.Receives l f.place := by
  refine (p.receives (.intro hcall hopen)).resolve_right ?_
  rintro ⟨content, hwrites⟩
  exact ne_of_writes hwrites hcall hopen haside hignores rfl

/-- A command line that does not name a file as its log file leaves it as it is, unless its run puts
another in its place. -/
theorem file?_after (hspares : ∀ f, p.Opens l f → f.place ≠ k) :
    (p.after l).disk.file? k = p.disk.file? k ∨
      ∃ content mode, p.Writes l k content ∧
        (p.after l).disk.file? k = some (content.toUTF8, mode) := by
  rw [after]
  dsimp only
  cases hcall : Call.ofWords l.words with
  | error halt =>
    refine .inl ?_
    rw [perform, performIn, hcall]
    -- A call that is not understood, or only asked for help, leaves the disk.
    cases halt with
    | mk command stop => cases stop <;> rfl
  | ok call =>
    rw [perform_of_call hcall]
    cases hopen : call.openLog l.conditions p.disk with
    | error failure =>
      rw [Call.perform, hopen]
      exact .inl (call.file?_refused l.conditions p.disk k)
    | ok opened =>
      obtain ⟨d, log⟩ := opened
      rw [Call.perform_of_openLog hopen]
      have hother : log.map LogFile.place ≠ some k := by
        intro hk
        obtain ⟨f, rfl, hplace⟩ := Option.map_eq_some_iff.1 hk
        exact hspares f (.intro hcall hopen) hplace
      have hstart : (call.started l.conditions p.logger d log).Holding call.console
          (log.map LogFile.place) k (p.disk.file? k) :=
        ⟨Call.configured_started p.logger rfl, hother, Call.file?_openLog hopen hother⟩
      have hreport (file : Option (ByteArray × Nat)) (s : Logged) (e : Event)
          (hs : s.Holding call.console (log.map LogFile.place) k file) :
          (s.report e).Holding call.console (log.map LogFile.place) k file := hs.report e
      rcases holding_run hstart with hkept | hreplaced
      · obtain ⟨t, ht, hdisk, -⟩ := Call.exists_ended (hreport _) hkept
        exact .inl ((congrArg (Disk.file? · k) hdisk).trans ht.file)
      · obtain ⟨plan, out, t, hwrites, ⟨rfl, mode, hlast⟩, hrun⟩ :=
          exists_writes hcall hopen hreplaced
        rw [hrun]
        exact .inr ⟨_, mode, hwrites, hlast.file⟩

/-- **What later command lines leave of a file** that none of them names as its log file: it is as
it was, or one of them put another in its place. -/
theorem file?_afterAll (hspares : p.Spares ls k) :
    (p.afterAll ls).disk.file? k = p.disk.file? k ∨
      ∃ before l rest content mode, ls = before ++ l :: rest ∧
        (p.afterAll before).Writes l k content ∧
        (p.afterAll ls).disk.file? k = some (content.toUTF8, mode) := by
  induction ls generalizing p with
  | nil => exact .inl rfl
  | cons l rest ih =>
    -- The last of the command lines that wrote there decides; without one, nothing changed.
    have hfirst := p.file?_after (hspares [] l rest rfl)
    have hrest : (p.after l).Spares rest k :=
      fun before m after hls => hspares (l :: before) m after (congrArg (l :: ·) hls)
    rcases ih hrest with hsame | ⟨before, m, after, content, mode, rfl, hwrites, hfile⟩
    · rcases hfirst with hkept | ⟨content, mode, hwrites, hfile⟩
      · exact .inl (hsame.trans hkept)
      · exact .inr ⟨[], l, rest, content, mode, rfl, hwrites, hsame.trans hfile⟩
    · exact .inr ⟨l :: before, m, after, content, mode, rfl, hwrites, hfile⟩

end Process

/-! ### Sequences of command lines -/

/-- **Logging does not depend on earlier command lines.** Whatever command lines a process has
carried out, the next one that is understood is carried out as in a process of its own; its console
shows the records that reach its level, each once, and no others. Without a log file, what is seen
of it can be told from its run alone, and the same is seen of it with a log file, if that is in a
directory that is there and the run neither reads nor writes it. A log file receives every record,
each once, unless the run puts its own text in the place of the log file. Later command lines that
do not name it leave it as it is, or put their text in its place. What is said of runs with a log
file is said of messages without halves of surrogate pairs. -/
theorem logging_independent (d : Disk) (earlier : List Line) (l : Line) (call : Call)
    (hcall : Call.ofWords l.words = .ok call) :
    let p := Process.afterAll { disk := d } earlier
    p.perform l = CommandLine.perform l.conditions p.disk l.words ∧
    call.Shows (p.perform l) ∧
    (call.logFile = none →
      (p.perform l).impression =
        call.impressionOf (call.task.run l.conditions.host { disk := p.disk }) ∧
      ∀ name words d' f, Call.ofWords words = .ok { call with logFile := some name } →
        LogFile.openIn l.conditions.host p.disk name = .ok (d', f) →
        p.disk.isDirectory (l.conditions.host.directory.joinText name).parent = .ok true →
        call.task.Ignores f.place l.conditions.host p.disk → p.Whole { l with words } →
        (p.perform { l with words }).impression = (p.perform l).impression ∧
          p.Receives { l with words } f.place) ∧
    ∀ f, p.Opens l f → p.Whole l →
      (p.Receives l f.place ∨ ∃ content, p.Writes l f.place content) ∧
      ∀ later, (p.after l).Spares later f.place →
        ((p.after l).afterAll later).disk.file? f.place = (p.after l).disk.file? f.place ∨
        ∃ before m rest content mode, later = before ++ m :: rest ∧
          ((p.after l).afterAll before).Writes m f.place content ∧
          ((p.after l).afterAll later).disk.file? f.place = some (content.toUTF8, mode) := by
  intro p
  have hperform := p.perform_of_call hcall
  refine ⟨?_, ?_, ?_, ?_⟩
  · rw [hperform, Call.perform_eq, CommandLine.perform, performIn, hcall]
  · rw [hperform]
    exact Call.shows_perform _ _ _ _
  · -- With and without a log file, the impression is that of one and the same run.
    intro hnone
    have hopen : call.openLog l.conditions p.disk = .ok (p.disk, none) := by
      rw [Call.openLog, hnone]
    have hplain := Call.impression_perform p.logger hopen rfl nofun
    rw [hperform, hplain]
    refine ⟨rfl, fun name words d' f hwords hlog hparent hignores _ => ?_⟩
    have hopen' : ({ call with logFile := some name } : Call).openLog l.conditions p.disk =
        .ok (d', some f) :=
      congrArg (Except.map fun r : Disk × LogFile => (r.1, some r.2)) hlog
    have haside := LogFile.aside_of_openIn hlog hparent
    refine ⟨?_, Process.receives_of_ignores hwords hopen' haside hignores⟩
    rw [Process.perform_of_call hwords]
    refine (Call.impression_perform p.logger hopen' haside ?_).trans rfl
    rintro g hg
    cases hg
    exact hignores
  · exact fun f hopens _ => ⟨p.receives hopens, fun later hspares => Process.file?_afterAll hspares⟩

/-! ### A project with a log file -/

def shopConditions : Conditions := ⟨shopHost, "2020-02-02 20:20:20,020"⟩

def shopLine : Line := ⟨shopConditions, ["generate", "--descriptor", "types.json"]⟩

/-- The same command line with a log file. -/
def loggedLine : Line :=
  { shopLine with words := ["generate", "--descriptor", "types.json", "--log-file", "run.log"] }

def shopCall : Call := ⟨false, none, .generate shopRequest false⟩

def runLog : LogFile := ⟨["shop", "run.log"], 0o644, .empty⟩

/-- A process that served its descriptors before, and said all it had to say. -/
def servedShop : Process :=
  Process.afterAll { disk := newShop.disk } [⟨shopConditions, ["--verbose", "serve"]⟩]

theorem ignores_runLog : shopCall.task.Ignores runLog.place shopHost newShop.disk := by
  have hplanned : planned shopHost shopRequest newShop.disk =
      .ok ⟨shopTarget, "Main", mainText⟩ := by
    obtain ⟨b, hplan⟩ := plan_shop make_newShop
    have hplanned := planned_of_run hplan
    exact hplanned
  refine
    { project := ?_, settings := ?_, descriptor := ?_, extractor := ?_, template := ?_,
      target := ?_, temporary := ?_ }
  · rintro path hpath
    cases hpath
    exact clear_of_first (by decide)
  · rintro path file hpath hfile
    cases hpath
    cases hfile
    exact ⟨clear_of_first (by decide), by decide⟩
  · rintro path settings file ⟨hpath, hload⟩ hfile
    cases hfile
    exact ⟨clear_of_first (by decide), by decide⟩
  · exact fun _ _ _ => rfl
  · rintro path settings f directory file ⟨hpath, hload⟩ - hdirectory
    cases hpath
    cases hload
    cases hdirectory
  · rintro p hp
    cases hp.symm.trans hplanned
    exact ⟨clear_of_first (by decide), by decide⟩
  · rintro - p n hp
    cases hp.symm.trans hplanned
    refine clear_temporaryPath (clear_of_first (by decide)) ?_
    rw [Replacement.place_temporaryPath]
    intro heq
    -- A temporary file is deeper in the tree than the log file.
    have hlength := congrArg List.length heq
    rw [List.length_append] at hlength
    cases hlength

theorem whole_loggedLine {p : Process} (hdisk : p.disk = newShop.disk) : p.Whole loggedLine := by
  intro call d log hcall hopen
  have hlogged : Call.ofWords loggedLine.words =
      .ok { shopCall with logFile := some "run.log" } := by decide +kernel
  obtain rfl := Except.ok.inj (hlogged.symm.trans hcall)
  have hmade : LogFile.openIn shopHost newShop.disk "run.log" =
      .ok (newShop.disk.put runLog.place runLog.entry, runLog) := rfl
  rw [hdisk, Call.openLog] at hopen
  have hlog := (congrArg (Except.map fun r : Disk × LogFile => (r.1, some r.2)) hmade).symm.trans
    hopen
  obtain rfl : newShop.disk.put runLog.place runLog.entry = d :=
    congrArg Prod.fst (Except.ok.inj hlog)
  have hmessage : (newShop.disk.put runLog.place runLog.entry).readText
      (shopPath.joinText "types.json") = .ok (mainDescriptor.write none) :=
    Disk.readText_eq_ok.2 ⟨by decide, _, rfl, Disk.textOf_toUTF8 (by decide +kernel)⟩
  have hnamed (settings : Settings) :
      descriptorFile? shopHost settings shopRequest = some (shopPath.joinText "types.json") := rfl
  refine ⟨fun path settings file text _ hfile htext => ?_, fun path settings text _ hnone => ?_⟩
  · obtain rfl := Option.some.inj ((hnamed settings).symm.trans hfile)
    obtain rfl := Except.ok.inj (hmessage.symm.trans htext)
    decide +kernel
  · exact absurd ((hnamed settings).symm.trans hnone) (Option.some_ne_none _)

theorem logging_independent_shop :
    Call.ofWords shopLine.words = .ok shopCall ∧
      servedShop.perform shopLine =
        CommandLine.perform shopConditions newShop.disk shopLine.words ∧
      shopCall.Shows (servedShop.perform shopLine) ∧
      (servedShop.perform loggedLine).impression = (servedShop.perform shopLine).impression ∧
      servedShop.Receives loggedLine runLog.place := by
  have hcall : Call.ofWords shopLine.words = .ok shopCall := by decide +kernel
  have hlogged : Call.ofWords loggedLine.words =
      .ok { shopCall with logFile := some "run.log" } := by decide +kernel
  -- Serving leaves the disk as it is.
  have hdisk : servedShop.disk = newShop.disk := by
    have hserve : Call.ofWords ["--verbose", "serve"] =
        .ok ⟨true, none, .serve standardHost standardPort⟩ := by decide +kernel
    show (Process.perform { disk := newShop.disk } ⟨shopConditions, _⟩).disk = _
    rw [Process.perform_of_call hserve]
    rfl
  obtain ⟨hfresh, hshows, hseen, -⟩ := logging_independent newShop.disk
    [⟨shopConditions, ["--verbose", "serve"]⟩] shopLine shopCall hcall
  have hopen : LogFile.openIn shopHost newShop.disk "run.log" =
      .ok (newShop.disk.put runLog.place runLog.entry, runLog) := rfl
  have hparent : newShop.disk.isDirectory (shopHost.directory.joinText "run.log").parent =
      .ok true := rfl
  have hignores := ignores_runLog
  rw [← hdisk] at hopen hparent hignores
  have hsame := (hseen rfl).2 "run.log" loggedLine.words _ runLog hlogged hopen hparent hignores
  rw [← hdisk]
  exact ⟨hcall, hfresh, hshows, hsame (whole_loggedLine hdisk)⟩

/-! ### A log file in the place of the declarations -/

/-- A project with a template of one letter, and a directory for its declarations. -/
def letterShop : Process where
  disk := ⟨[(["src"], .directory), (["src", "A"], .directory), (["t"], .directory),
    ([settingsFileName], .file "\"templates_dir\": \"t\"\n".toUTF8 0o644),
    (["t", Template.fileName], .file "x".toUTF8 0o644),
    (["m"], .file "\x7b\"moduleName\": \"A\"\x7d".toUTF8 0o644)]⟩

/-- A command line whose log file is the file of the declarations. -/
def letterLine : Line :=
  ⟨⟨⟨Path.ofRoot [], 0o022, { runner := fun _ _ => .ok "" }⟩, ""⟩,
    ["generate", "--descriptor", "m", "--log-file", "src/A/index.d.ts"]⟩

/-- The log file of this command line. -/
def letterLog : LogFile := ⟨["src", "A", "index.d.ts"], 0o644, .empty⟩

/-- A run that puts its declarations in the place of its log file loses its records there. -/
theorem letterLog_replaced :
    letterShop.Opens letterLine letterLog ∧ ¬ letterShop.Receives letterLine letterLog.place := by
  constructor
  · have hcall : Call.ofWords letterLine.words =
        .ok ⟨false, some "src/A/index.d.ts", .generate { descriptor := some "m" } false⟩ := by
      decide +kernel
    exact .intro hcall rfl
  · rintro ⟨old, mode, -, hfile⟩
    have hrun : (((letterShop.after letterLine).disk.file? letterLog.place).map (·.1.size),
        (fileLog letterLine.conditions.time
          (letterShop.perform letterLine).records).toUTF8.size) = (some 1, 246) := by
      decide +kernel
    obtain ⟨hletter, hlog⟩ := Prod.mk.inj hrun
    rw [hfile] at hletter
    -- One letter is left of 246 bytes.
    have hsize : (old ++ (fileLog letterLine.conditions.time
        (letterShop.perform letterLine).records).toUTF8).size = 1 := Option.some.inj hletter
    rw [ByteArray.size_append, hlog] at hsize
    omega

end CommandLine

end BoundaryTypes
