import FaultTolerance.CommandLine.Run

/-! The program `nova-mp`: reads the files that its arguments name and leaves the rest to `run`. -/
namespace FaultTolerance.CommandLine
open Files

/-- The text of the file at a path, if it is a text. -/
def readFileText (path : String) : IO (Option String) := do
  return String.fromUTF8? (← IO.FS.readBinFile path)

/-- The tree at a path that exists. Of the files in a directory only those with Java sources are
read, and links in it are passed over. -/
partial def readTree (path : String) : IO FileTree := do
  let directory ← IO.FS.realPath path
  if !(← directory.isDir) then return .file (← readFileText path)
  let mut entries := []
  for e in ← directory.readDir do
    let name := e.fileName
    let inner := join directory.toString name
    match (← e.path.symlinkMetadata).type with
    | .dir => entries := (name, ← readTree inner) :: entries
    | .file =>
      let text ← if isJavaName name then readFileText inner else pure none
      entries := (name, .file text) :: entries
    | _ => pure ()
  return .directory entries

/-- Adds to a tree what stands at a path. A path into a file ends at the file. -/
def addPath (here : Location) (t : FileTree) (path : String) : IO FileTree := do
  let l := Location.ofPath here path
  for n in [0:l.length + 1] do
    let outer : Location := l.take n
    let some p ← try some <$> IO.FS.realPath (Location.path outer) catch _ => pure none
      | return t
    if n = l.length || !(← p.isDir) then
      return t.insert outer (← readTree (Location.path outer))
  return t

/-- The files that a request is about. -/
def filesFor (r : Request) : IO FileSystem := do
  let here := Location.ofPath [] (← IO.currentDir).toString
  let root ← r.paths.foldlM (addPath here) ((FileTree.directory []).insert here (.directory []))
  return { root, workingDirectory := here }

/-- The files that arguments are about. -/
def filesOf (arguments : List String) : IO FileSystem :=
  match Invocation.parse arguments with
  | some (.request r) => filesFor r
  | _ => return { root := .directory [], workingDirectory := [] }

end FaultTolerance.CommandLine

open FaultTolerance.CommandLine in
def main (arguments : List String) : IO UInt32 := do
  match run (← filesOf arguments) arguments with
  | .ok o =>
    IO.print o.output
    return o.exitCode.toUInt32
  | .error e =>
    IO.eprintln e.message
    return 2
