import FaultTolerance.CommandLine.Failure
import FaultTolerance.Model.Sources

/-! Projects read from files. -/
namespace FaultTolerance.CommandLine
open Files

/-- A Java file with its text. -/
structure SourceFile where
  location : Location
  text : String
  deriving Repr, Inhabited

namespace SourceFile

def uri (f : SourceFile) : String := f.location.uri

def toUnit (isDependency : Bool) (f : SourceFile) : SourceUnit :=
  { uri := f.uri, text := f.text, isDependency }

/-- Reads files in turn, up to the first that cannot be read. -/
def readAll (fs : FileSystem) (ls : List Location) : Except Failure (List SourceFile) :=
  ls.mapM fun l => match fs.readAt l with
    | .ok text => .ok ⟨l, text⟩
    | .error cause => .error (.unreadableSource l.path cause)

end SourceFile

/-- The sources of a project and of what it depends on. -/
structure Project where
  /-- The project's directory. -/
  root : Location
  sources : List SourceFile
  dependencies : List SourceFile
  deriving Repr, Inhabited

namespace Project

/-- The directory and the Java files that a path stands for: those in a directory, or a file of
any name and the directory that it is in. -/
def filesAt (fs : FileSystem) (l : Location) : Location × List Location :=
  match fs.root.at? l with
  | some (.file _) => (l.dropLast, [l])
  | _ => (l, fs.javaFiles l)

def readDependency (fs : FileSystem) (path : String) : Except Failure (List SourceFile) :=
  match fs.resolve path with
  | .ok l => SourceFile.readAll fs (fs.javaFiles l)
  | .error cause => .error (.unresolvedDependency path cause)

/-- Reads the project at a path, and then its dependencies. -/
def read (fs : FileSystem) (path : String) (dependencies : List String) :
    Except Failure Project :=
  match fs.resolve path with
  | .ok l => do
    let (root, files) := filesAt fs l
    let sources ← SourceFile.readAll fs files
    let dependencies ← dependencies.mapM (readDependency fs)
    return ⟨root, sources, dependencies.flatten⟩
  | .error cause => .error (.unresolved path cause)

/-- The project's directory as a URI. -/
def uri (p : Project) : String := p.root.uri

/-- The name of the project's directory. -/
def name (p : Project) : String := p.root.getLast?.getD "project"

def units (p : Project) : List SourceUnit :=
  p.sources.map (SourceFile.toUnit false) ++ p.dependencies.map (SourceFile.toUnit true)

def toModel (p : Project) : Model := (MemoryModel.ofSources p.name [] p.units).toModel

/-- The documents of the project. -/
def uris (p : Project) : List String := p.sources.map SourceFile.uri

/-- The path of the file that a document was read from last. -/
def pathOf (p : Project) (uri : String) : String :=
  match p.sources.reverse.find? (·.uri == uri) with
  | some f => f.location.path
  | none => uri

end Project
end FaultTolerance.CommandLine
