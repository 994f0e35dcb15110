/-
  `Failing` — a run that fails changes no file.

  Everything before the replacement of the target only reads, and a replacement that
  fails is undone. So after a failure every file is what it was, and no file is new; the
  directories that lead to the target may be.
-/
import BoundaryTypes.Proofs.Disk.Completion
import BoundaryTypes.Proofs.Run.Reading

namespace BoundaryTypes.Run

open Outcome

variable {faults : Interruptions} {host : Host} {request : Request} {dryRun : Bool} {p : Plan}
  {a a' : Activity} {f : Failure}

theorem write_run (faults : Interruptions) (host : Host) (path : Path) (content : String)
    (a : Activity) :
    write faults host path content a =
      let w := Disk.writeUnder faults a.disk host.mask path content
      match w.fault with
      | none => .ok () { a with disk := w.disk }
      | some f => .error f { a with disk := w.disk } := by
  have hget : (get : RunM Activity) a = .ok a a := rfl
  rw [write, bind_run_of_ok _ hget]
  dsimp only
  cases hw : (Disk.writeUnder faults a.disk host.mask path content).fault with
  | none => rfl
  | some f => rfl

/-- A report does not fail. -/
theorem report_run (e : Event) (o : Outcome) (a : Activity) :
    (do report e; pure o : RunM Outcome) a = .ok o { a with events := a.events ++ [e] } := rfl

end BoundaryTypes.Run
