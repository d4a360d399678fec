import FaultTolerance.Java.Source.Lowering
import FaultTolerance.Java.Source.Reader
import FaultTolerance.Model.Memory

/-! A project read from Java sources. -/
namespace FaultTolerance
open Java Source

/-- A Java source with the name of its document. -/
structure SourceUnit where
  uri : String
  text : String
  /-- Whether it is the source of a dependency, whose types count as compiled. -/
  isDependency : Bool := false
  deriving Repr, Inhabited

def SourceUnit.origin (u : SourceUnit) : Origin :=
  if u.isDependency then .binary else .source u.uri

/-- The syntax tree of a source. -/
def SourceUnit.root (u : SourceUnit) : Node := .ofSource u.text.toList

namespace MemoryModel

/-- The qualified names of all types that some sources declare. -/
def declaredTypes (roots : List Node) : List String :=
  roots.flatMap fun root => root.declaredNames.map Prod.fst

/-- Adds the document of a source with the syntax tree `root`, and its types. -/
def addUnit (known : List String) (m : MemoryModel) (u : SourceUnit) (root : Node) : MemoryModel :=
  let m := if u.isDependency then m else m.addDocument u.uri
  (root.toTypes u.text.toList u.origin known).foldl (fun m t => (m.addType t).2) m

/-- The project of some sources. The names in `classpath` are known as well as the types of the
sources. -/
def ofSources (project : String) (classpath : List String) (units : List SourceUnit) :
    MemoryModel :=
  let roots := units.map SourceUnit.root
  let known := classpath ++ declaredTypes roots
  (units.zip roots).foldl (fun m (u, root) => m.addUnit known u root) (.named project)

end MemoryModel
end FaultTolerance
