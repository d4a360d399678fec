import FaultTolerance.Java.Naming
import FaultTolerance.Text.Affix

/-! What a simple name in a source stands for. `NameScope.resolve` asks in turn the types of the same
source, the single-type imports, the package, the on-demand imports and the types that every source
sees. -/
namespace FaultTolerance.Java.Source
open Text Naming

/-- The name of a type inside a package or, after `$`, inside another type. -/
def qualify (outer : String) (separator : Char) (simple : String) : String :=
  if outer.isEmpty then simple else outer ++ separator.toString ++ simple

/-! ## Resolution -/

/-- The types of `java.lang` that a simple name may stand for. -/
def ubiquitous : List String :=
  ["ArithmeticException", "Boolean", "Byte", "CharSequence", "Character", "Class", "Deprecated",
    "Double", "Enum", "Error", "Exception", "Float", "FunctionalInterface",
    "IllegalArgumentException", "IllegalStateException", "IndexOutOfBoundsException", "Integer",
    "InterruptedException", "Iterable", "Long", "NullPointerException", "Number", "Object",
    "Override", "Runnable", "RuntimeException", "SecurityException", "Short", "String",
    "StringBuilder", "SuppressWarnings", "Thread", "Throwable", "UnsupportedOperationException",
    "Void"]

/-- What gives the simple names in a source their meaning. -/
structure NameScope where
  package : Option String
  /-- The qualified name for the simple name of each type in the source, later types first. -/
  declared : List (String × String)
  /-- The qualified name for the simple name of each single-type import, later imports first. -/
  imported : List (String × String)
  /-- The packages imported on demand. -/
  onDemand : List String
  /-- The qualified names of all types that are known to exist. -/
  known : List String
  deriving Repr

namespace NameScope

/-- The simple and the qualified name of a single-type import. -/
def importedName (path : String) : String × String :=
  (.ofList (lastSegment (· = '.') path.toList), path)

/-- The type of a name in a package, when it is known. -/
def knownIn? (s : NameScope) (package name : String) : Option String :=
  let candidate := package ++ "." ++ name
  if s.known.contains candidate then some candidate else none

/-- The qualified name for a name as written; the name itself where there is none. -/
def resolve (s : NameScope) (name : String) : String :=
  if isPrimitive name || name = "void" || name.toList.contains '.' then name
  else ((s.declared.lookup name).or <|
    (s.imported.lookup name).or <|
    (s.package.bind (s.knownIn? · name)).or <|
    (s.onDemand.findSome? (s.knownIn? · name)).or <|
    if ubiquitous.contains name then some ("java.lang." ++ name) else none).getD name

/-- The erased and resolved type for a type as written. Type variables stand for `Object`. -/
def resolveType (s : NameScope) (typeVariables : List String) (written : String) : String :=
  let (base, n) := splitDimensions (eraseChars written.toList)
  let base := String.ofList base
  (if typeVariables.contains base then "java.lang.Object" else s.resolve base) ++
    .ofList (dimensions n)

end NameScope
end FaultTolerance.Java.Source
