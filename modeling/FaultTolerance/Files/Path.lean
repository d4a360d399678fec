import FaultTolerance.Text.Affix

/-! Paths as text. A slash separates the segments of a path; one in front makes it absolute. -/
namespace FaultTolerance.Files
open Text

/-! ## Paths as they are written -/

/-- The segments of a path. Slashes in a row have empty segments between them, and an absolute
path begins with one. -/
def segments (path : String) : List String := path.splitOn "/"

/-- Drops the segments at the end that lead nowhere. -/
def trimSegments (ss : List String) : List String :=
  (ss.reverse.dropWhile fun s => s = "" || s = ".").reverse

/-- The segments of the directory that the last of some segments is in. -/
def parentSegments (ss : List String) : List String := trimSegments (trimSegments ss).dropLast

/-- The path of the directory that an entry is in, which is empty for a plain name. A point in
front of a relative path stays. -/
def parent (path : String) : String :=
  match segments path with
  | "" :: ss => "/" ++ "/".intercalate (parentSegments ss)
  | "." :: ss =>
    if (trimSegments ss).isEmpty then "" else "/".intercalate ("." :: parentSegments ss)
  | ss => "/".intercalate (parentSegments ss)

/-- The path of an entry in a directory. -/
def join (directory name : String) : String :=
  if directory.isEmpty || directory.endsWith "/" then directory ++ name
  else directory ++ "/" ++ name

/-- Whether a name ends in `.java` after at least one more character. -/
def isJavaName (name : String) : Bool :=
  match stripEnd? ".java".toList name.toList with
  | some stem => !stem.isEmpty
  | none => false

/-! ## Locations -/

/-- The names that lead from the root to an entry. -/
abbrev Location := List String

namespace Location

/-- The location that segments lead to from another one, if all of them lead somewhere. -/
def follow : Location → List String → Location
  | l, [] => l
  | l, s :: ss =>
    if s = "" || s = "." then follow l ss
    else if s = ".." then follow l.dropLast ss
    else follow (l ++ [s]) ss

/-- The location of a path, seen from a directory. -/
def ofPath (directory : Location) (path : String) : Location :=
  match segments path with
  | "" :: ss => follow [] ss
  | ss => follow directory ss

/-- The absolute path of a location. -/
def path (l : Location) : String := "/" ++ "/".intercalate l

/-- The URI of a location. Backslashes become slashes, and nothing is escaped. -/
def uri (l : Location) : String :=
  "file://" ++ .ofList (l.path.toList.map fun c => if c = '\\' then '/' else c)

end Location
end FaultTolerance.Files
