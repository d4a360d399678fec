import FaultTolerance.Files.Path

/-! Files and directories as values, and how paths lead through them. -/
namespace FaultTolerance.Files

inductive FileTree where
  /-- A file and its text. There is none when its bytes are no UTF-8. -/
  | file (text : Option String)
  | directory (entries : List (String × FileTree))
  deriving Repr, Inhabited

/-- Why a file or a directory cannot be used. -/
inductive FileError where
  | notFound
  | notADirectory
  | isADirectory
  | notText
  deriving DecidableEq, Repr, Inhabited

def FileError.message : FileError → String
  | .notFound => "No such file or directory (os error 2)"
  | .notADirectory => "Not a directory (os error 20)"
  | .isADirectory => "Is a directory (os error 21)"
  | .notText => "stream did not contain valid UTF-8"

namespace FileTree

/-- What a location holds. -/
def at? : FileTree → Location → Option FileTree
  | t, [] => some t
  | .file _, _ :: _ => none
  | .directory entries, name :: l => (entries.lookup name).bind (at? · l)

/-- Puts a tree at a location, in place of what is there. The directories that lead to it are made
where they are missing. -/
def insert : FileTree → Location → FileTree → FileTree
  | _, [], new => new
  | t, name :: l, new =>
    let entries := match t with
      | .directory entries => entries
      | .file _ => []
    let inner := insert ((entries.lookup name).getD (.directory [])) l new
    .directory (entries.filter (·.1 != name) ++ [(name, inner)])

/-- The location that some segments lead to from another one. A point stays where it is, and two
points lead back. -/
def walk (t : FileTree) (here : Location) : List String → Except FileError Location
  | [] => .ok here
  | s :: ss =>
    match t.at? here with
    | some (.directory entries) =>
      if s = "" || s = "." then walk t here ss
      else if s = ".." then walk t here.dropLast ss
      else if (entries.lookup s).isSome then walk t (here ++ [s]) ss
      else .error .notFound
    | some (.file _) => .error .notADirectory
    | none => .error .notFound

def isDirectory : FileTree → Bool
  | .directory _ => true
  | .file _ => false

/-- The text of a file. -/
def text : FileTree → Except FileError String
  | .file (some text) => .ok text
  | .file none => .error .notText
  | .directory _ => .error .isADirectory

/-! ## Java files -/

mutual

/-- The locations of the Java files in a tree that is at a location of its own. The entries of a
directory come in the order of their names. -/
def javaFiles (here : Location) : FileTree → List Location
  | .file _ => if (here.getLast?.map isJavaName).getD false then [here] else []
  | .directory entries =>
    ((javaFilesByName here entries).mergeSort fun a b => a.1 ≤ b.1).flatMap Prod.snd

/-- The Java files in each entry of a directory. -/
def javaFilesByName (here : Location) : List (String × FileTree) → List (String × List Location)
  | [] => []
  | (name, t) :: entries => (name, t.javaFiles (here ++ [name])) :: javaFilesByName here entries

end
end FileTree

/-- All files, and the directory from which relative paths lead. -/
structure FileSystem where
  root : FileTree
  workingDirectory : Location
  deriving Repr, Inhabited

namespace FileSystem

/-- The location that a path leads to. -/
def resolve (fs : FileSystem) (path : String) : Except FileError Location :=
  match segments path with
  | "" :: ss => fs.root.walk [] ss
  | ss => fs.root.walk fs.workingDirectory ss

/-- What a path leads to. -/
def find (fs : FileSystem) (path : String) : Except FileError FileTree := do
  match fs.root.at? (← fs.resolve path) with
  | some t => .ok t
  | none => .error .notFound

def isDirectory (fs : FileSystem) (path : String) : Bool :=
  match fs.find path with
  | .ok t => t.isDirectory
  | .error _ => false

/-- Whether a path leads to a file. -/
def isFile (fs : FileSystem) (path : String) : Bool :=
  match fs.find path with
  | .ok t => !t.isDirectory
  | .error _ => false

/-- The text of the file that a path leads to. -/
def readText (fs : FileSystem) (path : String) : Except FileError String := do
  (← fs.find path).text

/-- The text of the file at a location. -/
def readAt (fs : FileSystem) (l : Location) : Except FileError String :=
  match fs.root.at? l with
  | some t => t.text
  | none => .error .notFound

/-- The locations of the Java files in the directory at a location, or of a Java file there. -/
def javaFiles (fs : FileSystem) (l : Location) : List Location :=
  match fs.root.at? l with
  | some t => t.javaFiles l
  | none => []

end FileSystem
end FaultTolerance.Files
