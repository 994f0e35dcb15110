/-
  `Main` — the program.

  The files below the working directory are read into a disk, the command line is carried
  out on it, and what it changed there is written. Serving answers requests from the
  standard input, one in a line: what is asked, the target and the body.
-/
import BoundaryTypes.Command.Run
import BoundaryTypes.CommandLine.Performance
import BoundaryTypes.Service
import Std.Time

namespace BoundaryTypes.Outer

/-- The entries at and below an entry of a directory. Links are left out. -/
partial def readEntry (e : IO.FS.DirEntry) : IO (List (Place × Entry)) := do
  let place := (Path.ofText e.path.toString).parts
  match (← e.path.symlinkMetadata).type with
  | .dir =>
    let below ← (← e.path.readDir).toList.mapM readEntry
    pure ((place, .directory) :: below.flatten)
  | .file => pure [(place, .file (← IO.FS.readBinFile e.path) 0o644)]
  | _ => pure []

/-- The directories that lead to a place, the place included. -/
def directoriesTo (place : Place) : List (Place × Entry) :=
  (List.range place.length).map fun n => (place.take (n + 1), .directory)

/-- The disk with the working directory and all below it. -/
def readDisk : IO (Path × Disk) := do
  let directory ← IO.currentDir
  let path := Path.ofText directory.toString
  let below ← (← directory.readDir).toList.mapM readEntry
  pure (path, ⟨directoriesTo path.parts ++ below.flatten⟩)

/-- The name of a place. -/
def nameOf (place : Place) : String := (Path.ofRoot place).text

/-- Writes what differs between two disks. A file takes its place as a whole. -/
def writeChanges (before after : Disk) : IO Unit := do
  for (place, entry) in after.entries do
    if before.entryAt? place ≠ some entry then
      match entry with
      | .directory => IO.FS.createDirAll (nameOf place)
      | .file bytes _ =>
        IO.FS.createDirAll (nameOf place.dropLast)
        let temporary := nameOf place ++ ".tmp"
        IO.FS.writeBinFile temporary bytes
        IO.FS.rename temporary (nameOf place)

/-- The first word of a text and what follows it. -/
def cutWord (s : String) : String × String :=
  let word := s.toList.takeWhile (· != ' ')
  (String.ofList word, String.ofList (s.toList.drop (word.length + 1)))

/-- Answers requests until there are no more. -/
partial def serve (input output : IO.FS.Stream) : IO Unit := do
  let line ← input.getLine
  unless line.isEmpty do
    let (verb, rest) := cutWord (Text.stripBlank line)
    let (target, body) := cutWord rest
    let reply := Service.reply ⟨verb, target, body⟩
    output.putStr (toString reply.status ++ " " ++ reply.body.write none ++ "\n")
    output.flush
    serve input output

/-- The time in the form that log files have. -/
def logTime : IO String := do
  pure ((← Std.Time.PlainDateTime.now).format "uuuu-MM-dd HH:mm:ss,SSS")

end BoundaryTypes.Outer

open BoundaryTypes in
/-- Carries out a command line. -/
def main (words : List String) : IO UInt32 := do
  let (directory, disk) ← Outer.readDisk
  let host : Host := { directory, mask := 0o022, tools := Command.runner }
  let p := CommandLine.perform ⟨host, ← Outer.logTime⟩ disk words
  Outer.writeChanges disk p.disk
  (← IO.getStdout).putStr p.out
  (← IO.getStderr).putStr p.err
  if let some failure := p.escaped then
    (← IO.getStderr).putStr (failure.message ++ "\n")
  unless p.served.isEmpty do
    Outer.serve (← IO.getStdin) (← IO.getStdout)
  pure p.status.toUInt32
