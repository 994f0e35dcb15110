/-
  `Handlers` — what becomes of a record.

  A logger that was configured for a run has a console, and perhaps a log file. Whatever level the
  logger itself has, the console shows a record exactly if the record reaches the console's own
  level (`Logged.report_console`, `Logged.report_file`). The log file takes every record, and
  nothing on the disk changes but the log file.
-/
import BoundaryTypes.Proofs.Logger.LogFile

namespace BoundaryTypes

/-! ### Texts -/

namespace Console

variable {c : Console} {e : Event}

theorem display_append (c : Console) (es es' : List Event) :
    c.display (es ++ es') = c.display es ++ c.display es' := by
  rw [display, shown, List.filter_append, List.map_append, String.join_append]
  rfl

/-- What does not reach the level of a console is not shown. -/
theorem display_below (h : ¬ c.threshold.rank ≤ e.level.rank) : c.display [e] = "" := by
  rw [display, shown, List.filter_singleton, decide_eq_false h]
  rfl

end Console

/-! ### Reports -/

/-- What was configured before makes no difference. -/
theorem Logger.configured_eq (l : Logger) (c : Console) (log : Option LogFile) :
    l.configured c log = Logger.initial.configured c log := by
  cases log <;> rfl

namespace Logged

variable {s : Logged} {c : Console} {f : LogFile} {k? : Option Place} {k : Place}

/-- Without a log file the console shows what reaches its level. -/
theorem report_console (h : s.logger = Logger.initial.configured c none) (e : Event) :
    s.report e = { s with shown := s.shown ++ c.display [e], records := s.records ++ [e] } := by
  obtain ⟨disk, logger, time, shown, records⟩ := s
  obtain rfl : logger = _ := h
  rw [report]
  dsimp only
  split
  · rfl
  · next hbelow =>
    have hnot : ¬ c.threshold.rank ≤ e.level.rank := by
      intro hle
      exact hbelow (decide_eq_true hle)
    rw [Console.display_below hnot, String.append_empty]

/-- With a log file the console shows the same, and the log file takes the record. -/
theorem report_file (h : s.logger = Logger.initial.configured c (some f)) (e : Event) :
    s.report e =
      { s with
        disk := (f.append s.disk (e.fileLine s.time)).2
        logger := Logger.initial.configured c (some (f.append s.disk (e.fileLine s.time)).1)
        shown := s.shown ++ c.display [e]
        records := s.records ++ [e] } := by
  obtain ⟨disk, logger, time, shown, records⟩ := s
  obtain rfl : logger = _ := h
  have htakes : (Logger.initial.configured c (some f)).takes e.level = true := by
    cases e <;> rfl
  rw [report]
  dsimp only
  rw [if_pos htakes]
  rfl

/-- The logger is configured with a console, and with a log file if a place is given. What the
console has shown are the records that reach its level. -/
structure Configured (c : Console) (k? : Option Place) (s : Logged) : Prop where
  logger : ∃ log, s.logger = Logger.initial.configured c log ∧ log.map LogFile.place = k?
  shown : s.shown = c.display s.records

/-- A record is shown as its level says, and changes no more on the disk than the log file. -/
structure Reported (c : Console) (k? : Option Place) (s t : Logged) (e : Event) : Prop where
  configured : t.Configured c k?
  records : t.records = s.records ++ [e]
  aside : Disk.Aside k? s.disk t.disk

/-- A configured logger hands a record to the console and, if it has one, to the log file. -/
theorem Configured.report (h : s.Configured c k?) (e : Event) :
    Reported c k? s (s.report e) e := by
  obtain ⟨log, hlogger, rfl⟩ := h.logger
  have hshown : s.shown ++ c.display [e] = c.display (s.records ++ [e]) := by
    rw [h.shown, Console.display_append]
  cases log with
  | none =>
    rw [report_console hlogger]
    exact ⟨⟨⟨none, hlogger, rfl⟩, hshown⟩, rfl, .refl _ _⟩
  | some f =>
    rw [report_file hlogger]
    refine ⟨⟨⟨some _, rfl, ?_⟩, hshown⟩, rfl, f.aside_append _ _⟩
    rw [Option.map_some, Option.map_some, f.place_append]

/-- A configured logger stays so over any number of records, and keeps them in order. -/
theorem Configured.reports (h : s.Configured c k?) (es : List Event) :
    (es.foldl Logged.report s).Configured c k? ∧
      (es.foldl Logged.report s).records = s.records ++ es := by
  induction es generalizing s with
  | nil => exact ⟨h, (List.append_nil _).symm⟩
  | cons e rest ih =>
    have hreported := h.report e
    obtain ⟨hlast, hrecords⟩ := ih hreported.configured
    refine ⟨hlast, ?_⟩
    rw [List.foldl_cons, hrecords, hreported.records, List.append_assoc]
    rfl

/-- A file that is not the log file. -/
structure Holding (c : Console) (k? : Option Place) (k : Place) (file : Option (ByteArray × Nat))
    (s : Logged) : Prop where
  configured : s.Configured c k?
  other : k? ≠ some k
  file : s.disk.file? k = file

theorem Holding.report {file : Option (ByteArray × Nat)} (h : s.Holding c k? k file) (e : Event) :
    (s.report e).Holding c k? k file := by
  have hreported := h.configured.report e
  have hsame := Disk.file?_congr (hreported.aside.entryAt?_eq h.other)
  exact ⟨hreported.configured, h.other, hsame.trans h.file⟩

/-- The log file holds what it held before, and every record. -/
structure Keeping (c : Console) (f : LogFile) (now : String) (s : Logged) : Prop where
  time : s.time = now
  logger : s.logger = Logger.initial.configured c (some (f.taken now s.records))
  entry : s.disk.entryAt? f.place = some (f.taken now s.records).entry

theorem Keeping.report {now : String} (h : s.Keeping c f now) (e : Event) :
    (s.report e).Keeping c f now := by
  have hentry : s.disk.entryAt? (f.taken now s.records).place =
      some (f.taken now s.records).entry := h.entry
  have htaken := f.taken_append now s.records e
  rw [report_file h.logger, LogFile.append_eq hentry, h.time]
  refine ⟨rfl, ?_, ?_⟩
  · exact congrArg (fun f => Logger.initial.configured c (some f)) htaken.symm
  · rw [htaken]
    exact Disk.entryAt?_put_self (LogFile.ne_nil_of_entry hentry) _

end Logged

end BoundaryTypes
