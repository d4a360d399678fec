import FaultTolerance.Model.Basic

/-! What a host may lay over a model: other annotations than the stored ones, questions that
fail, and members without ranges. -/
namespace FaultTolerance
open Java Text

structure Overlay where
  /-- Annotations for every type of a qualified name, the latest entry first. -/
  typeAnnotations : List (String × List Annotation) := []
  /-- Annotations for every method of a name, the latest entry first. -/
  methodAnnotations : List (String × List Annotation) := []
  /-- Types that cannot be read. -/
  failingTypes : List Nat := []
  /-- Types whose methods cannot be listed. -/
  failingMethods : List Nat := []
  hidesRanges : Bool := false
  deriving Repr, Inhabited

/-- Adds an element unless it is there; tells whether it was added. -/
def insertNew (n : Nat) (ns : List Nat) : Bool × List Nat :=
  if ns.contains n then (false, ns) else (true, n :: ns)

namespace Overlay

/-- The annotations that the overlay gives an element, or those underneath. -/
def annotationsOn (o : Overlay) (underneath : Element → List Annotation) (e : Element) :
    List Annotation :=
  match e with
  | .type t => (o.typeAnnotations.lookup t.name).getD (underneath e)
  | .method _ m => (o.methodAnnotations.lookup m.name).getD (underneath e)
  | .field .. => underneath e

/-- The model as seen through the overlay. -/
def view (o : Overlay) (m : Model) : Model where
  resolveProject := m.resolveProject
  type id := if o.failingTypes.contains id then .error (.unknownType id) else m.type id
  typesInDocument := m.typesInDocument
  methodsOf id := if o.failingMethods.contains id then .error (.unknownType id) else m.methodsOf id
  annotationsOn := o.annotationsOn m.annotationsOn
  rangeOf member := if o.hidesRanges then none else m.rangeOf member

end Overlay
end FaultTolerance
