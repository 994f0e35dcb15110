/-
  `Basic` — commands that are run for their output.

  An invocation names a program with its arguments, the directory it works in, and how
  long it may take. It ends with a status and what was written to the two outputs, or
  is never run. Commands only read the disk, so running one is a function of it.
-/
import BoundaryTypes.Failure

namespace BoundaryTypes.Command

/-- A program to run: its name and arguments, its directory and its limit in seconds. -/
structure Invocation where
  args : List String
  directory : Path
  timeout : Float
deriving Repr

/-- How a program ends. -/
inductive Status where
  | code (n : Nat)
  | signal (n : Nat)
deriving DecidableEq, Repr

/-- A status as one number: the code, or the signal below zero. -/
def Status.number : Status → Int
  | .code n => n
  | .signal n => -n

/-- A status as a script sees it. -/
def Status.seen : Status → Nat
  | .code n => n
  | .signal n => 128 + n

/-- A finished program: its status, what it wrote to the two outputs, and how long it took. -/
structure Finished where
  status : Status := .code 0
  out : List UInt8 := []
  err : List UInt8 := []
  seconds : Float := 0.0

/-- What becomes of an invocation. -/
inductive Ending where
  | exited (status : Status) (out err : List UInt8)
  | notFound
  | timedOut
  | refused (f : SystemFault)
  | unfit (f : ValueFault)

/-- The bytes of a text. -/
def bytesOf (s : String) : List UInt8 := s.toUTF8.toList

/-- A program that writes a text and ends well. -/
def Finished.printing (s : String) : Finished := { out := bytesOf s }

/-- A program that reports a fault and ends with a code. -/
def Finished.failing (code : Nat) (report : String) : Finished :=
  { status := .code code, err := bytesOf report }

end BoundaryTypes.Command
