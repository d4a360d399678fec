import FaultTolerance.Catalog.Annotations
import FaultTolerance.Literal
import FaultTolerance.Model.Basic

/-! Where the annotations of the catalog occur in a type. -/
namespace FaultTolerance
open Java

/-- What an annotation stands on. -/
inductive Target where
  | type
  | method (method : Method)
  | field (field : Field)
  deriving Repr, Inhabited

/-- A catalog annotation applied to a type or to one of its members. -/
structure Occurrence where
  spec : Catalog.Spec
  annotation : Annotation
  declaringType : JavaType
  target : Target
  deriving Repr

namespace Occurrence

/-- The occurrences among an element's annotations. -/
def among (t : JavaType) (target : Target) (annotations : List Annotation) : List Occurrence :=
  annotations.filterMap fun a => (Catalog.resolve? a).map fun spec => ⟨spec, a, t, target⟩

/-- The occurrences in a type whose methods are known: on the type, then on each method, then on
each field. -/
def ofType (model : Model) (t : JavaType) (methods : List Method) : List Occurrence :=
  among t .type (model.annotationsOn (.type t)) ++
    methods.flatMap (fun m => among t (.method m) (model.annotationsOn (.method t m))) ++
    t.fields.flatMap (fun f => among t (.field f) (model.annotationsOn (.field t f)))

/-- The occurrences in a type. The type is asked for before its methods. -/
def inType (model : Model) (id : Nat) : Except ModelError (List Occurrence) := do
  let t ← model.type id
  let methods ← model.methodsOf id
  return ofType model t methods

end Occurrence

/-- The first annotation on a type that denotes the entry `spec`. -/
def typeAnnotation? (model : Model) (t : JavaType) (spec : Catalog.Spec) : Option Annotation :=
  (model.annotationsOn (.type t)).find? fun a => Catalog.resolve? a == some spec

/-- The literal written for a parameter, or the catalog's default. -/
def parameterValue? (a : Option Annotation) (p : Catalog.Parameter) : Option String :=
  match a.bind fun a => a.member? p.name with
  | some member => some (Literal.ofValue member.value)
  | none => p.default?

end FaultTolerance
