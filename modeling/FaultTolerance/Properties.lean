import FaultTolerance.Metadata.Collector
import FaultTolerance.Occurrence

/-! The configuration properties that a project's annotations give rise to.

A property is named `type/method/annotation/parameter`, `type/annotation/parameter` or
`annotation/parameter`, one tier for each. `Derivation` is the state while the occurrences are
gone through in order. -/
namespace FaultTolerance
open Java

/-- What all properties of one tier share. -/
structure Tier where
  /-- The name up to the parameter. -/
  stem : String
  sourceType : String
  sourceMethod : Option String := none
  binary : Bool := false
  deriving DecidableEq, Repr

/-- The tier of all uses of an annotation in a type. -/
def Tier.ofType (t : JavaType) (spec : Catalog.Spec) : Tier where
  stem := t.name ++ "/" ++ spec.simpleName
  sourceType := t.name
  binary := t.isBinary

/-- The tier of the uses of an annotation on one method. -/
def Tier.ofMethod (t : JavaType) (m : Method) (spec : Catalog.Spec) : Tier where
  stem := t.name ++ "/" ++ m.name ++ "/" ++ spec.simpleName
  sourceType := t.name
  sourceMethod := some m.signature
  binary := t.isBinary

/-- The property of a parameter in a tier. -/
def Tier.property (tier : Tier) (p : Catalog.Parameter) (value : String) : ItemMetadata where
  name := tier.stem ++ "/" ++ p.name
  type := p.type
  description := some p.documentation
  sourceType := some tier.sourceType
  sourceMethod := tier.sourceMethod
  defaultValue := some value
  binary := tier.binary

/-- The property of a parameter for all uses of its annotation. It points at the annotation's own
member. -/
def globalProperty (spec : Catalog.Spec) (p : Catalog.Parameter) (value : String) :
    ItemMetadata where
  name := spec.simpleName ++ "/" ++ p.name
  type := p.type
  description := some p.documentation
  sourceType := some spec.qualifiedName
  sourceMethod := p.sourceMethod
  defaultValue := some value

/-- The property that turns off every policy but fallback. -/
def nonFallbackProperty : ItemMetadata where
  name := Catalog.nonFallbackEnabled
  type := "boolean"
  description := some Catalog.nonFallbackEnabledDescription
  defaultValue := some "false"

/-- The state of a derivation. -/
structure Derivation where
  collected : Collector := {}
  /-- The annotations met so far, in the order of their first use. -/
  used : List Catalog.Spec := []
  /-- The types and annotations whose tier is already there. -/
  typeTiers : List (String × String) := []
  deriving Repr, Inhabited

namespace Derivation

/-- Adds a hint unless one of its name is there. -/
def addHint (c : Collector) (hint : Option Catalog.EnumHint) : Collector :=
  match hint with
  | some h => (c.addHint h.toItemHint).2
  | none => c

/-- Adds a hint after asking for its name, so that the suggested values are put together only for
the first one of a name. -/
def addNewHint (c : Collector) (hint : Option Catalog.EnumHint) : Collector :=
  match hint with
  | some h => if c.hasHint h.name then c else (c.addHint h.toItemHint).2
  | none => c

/-- Adds the properties of a tier, valued from `a`, the hint of each parameter before its property.
A required parameter has none. -/
def addTier (c : Collector) (spec : Catalog.Spec) (tier : Tier) (a : Option Annotation) :
    Collector :=
  (spec.parameters.filter fun p => !p.isRequired).foldl (fun c p =>
    match parameterValue? a p with
    | some value => ((addNewHint c p.hint).addProperty (tier.property p value)).2
    | none => c) c

/-- Adds the tier of an annotation in a type, unless it is there. -/
def addTypeTier (d : Derivation) (t : JavaType) (spec : Catalog.Spec) (a : Option Annotation) :
    Derivation :=
  if d.typeTiers.contains (t.name, spec.qualifiedName) then d
  else { d with
    collected := addTier d.collected spec (.ofType t spec) a
    typeTiers := (t.name, spec.qualifiedName) :: d.typeTiers }

def markUsed (d : Derivation) (spec : Catalog.Spec) : Derivation :=
  if d.used.contains spec then d else { d with used := d.used ++ [spec] }

/-- Takes one occurrence into account. On a method it brings the tier of the type, valued from
the type's own annotation, and that of the method; on a field it only counts as a use. -/
def visit (model : Model) (d : Derivation) (o : Occurrence) : Derivation :=
  let d := d.markUsed o.spec
  match o.target with
  | .type => d.addTypeTier o.declaringType o.spec (some o.annotation)
  | .method m =>
    let d := d.addTypeTier o.declaringType o.spec (typeAnnotation? model o.declaringType o.spec)
    { d with
      collected := addTier d.collected o.spec (.ofMethod o.declaringType m o.spec)
        (some o.annotation) }
  | .field _ => d

/-- Takes a type into account. One that cannot be read is left out. -/
def visitType (model : Model) (d : Derivation) (id : Nat) : Derivation :=
  match Occurrence.inType model id with
  | .ok found => found.foldl (visit model) d
  | .error _ => d

/-- Adds the properties for all uses of an annotation. -/
def addGlobal (c : Collector) (spec : Catalog.Spec) : Collector :=
  spec.parameters.foldl (fun c p =>
    match p.default? with
    | some value => ((addHint c p.hint).addProperty (globalProperty spec p value)).2
    | none => c) c

/-- The outcome: what was collected, the global properties, and the switch for all policies. -/
def finish (d : Derivation) : ProjectInfo :=
  ((d.used.foldl addGlobal d.collected).addProperty nonFallbackProperty).2.toProjectInfo

end Derivation

/-- The properties and hints of the types that a scope covers. -/
def projectProperties (model : Model) (scope : Scope) : Except ModelError ProjectInfo := do
  let ids ← model.resolveProject scope
  return (ids.foldl (Derivation.visitType model) {}).finish

end FaultTolerance
