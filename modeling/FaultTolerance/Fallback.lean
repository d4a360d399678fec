import FaultTolerance.Occurrence

/-! References to fallback methods: the method must exist in the same type, and a lone candidate
must be able to stand in for the annotated method. -/
namespace FaultTolerance.Fallback
open Java Text

/-! ## Signatures -/

/-- Whether `candidate` can stand in for `annotated`: it returns the same type and takes the
same parameters or none, types being compared by erased simple name. -/
def isCompatible (annotated candidate : Method) : Bool :=
  Naming.sameErasedSimpleName annotated.returnType candidate.returnType &&
    (candidate.parameterTypes.isEmpty ||
      (candidate.parameterTypes.length == annotated.parameterTypes.length &&
        (annotated.parameterTypes.zip candidate.parameterTypes).all fun (a, b) =>
          Naming.sameErasedSimpleName a b))

/-- The simple name of an erased type, followed by its dimensions. -/
def displayType (type : String) : String :=
  let erased := Naming.eraseChars type.toList
  let base := String.ofList (Naming.splitDimensions erased).1
  Naming.simpleName base ++ .ofList (Naming.dimensions (Naming.countDimensions erased))

/-- The signature that a fallback method called `name` should have. -/
def expectedSignature (name : String) (annotated : Method) : String :=
  displayType annotated.returnType ++ " " ++ name ++ "(" ++
    ", ".intercalate (annotated.parameterTypes.map displayType) ++ ")"

/-! ## Findings -/

/-- What is wrong with a reference. -/
inductive Problem where
  /-- The type has no method of that name. -/
  | missingMethod (name : String)
  /-- The only method of that name cannot stand in for the annotated one. -/
  | incompatibleSignature (name expected : String)
  deriving DecidableEq, Repr

/-- A problem, and the range of the reference. -/
structure Finding where
  range : Range
  problem : Problem
  deriving DecidableEq, Repr

/-- The problem with a reference to `name` from `target`, if there is one. -/
def problem? (checkSignatures : Bool) (methods : List Method) (target : Target) (name : String) :
    Option Problem :=
  match methods.filter (·.name == name), target with
  | [], _ => some (.missingMethod name)
  | [candidate], .method annotated =>
    if checkSignatures && !isCompatible annotated candidate then
      some (.incompatibleSignature name (expectedSignature name annotated))
    else none
  | _, _ => none

/-- What is found at one occurrence. Only a `fallbackMethod` that is a string, and not the empty
one, refers to a method. -/
def finding? (model : Model) (checkSignatures : Bool) (methods : List Method) (o : Occurrence) :
    Option Finding := do
  guard (o.spec.qualifiedName == Catalog.fallback.qualifiedName)
  let member ← o.annotation.member? Catalog.fallbackMethod
  let name ← member.value.stringText?
  guard (name ≠ "")
  let problem ← problem? checkSignatures methods o.target name
  return ⟨((model.rangeOf member).orElse fun _ => o.annotation.range).getD default, problem⟩

/-- The findings in a type, in the order of its occurrences. -/
def findings (model : Model) (checkSignatures : Bool) (id : Nat) :
    Except ModelError (List Finding) := do
  let methods ← model.methodsOf id
  let found ← Occurrence.inType model id
  return found.filterMap (finding? model checkSignatures methods)

end FaultTolerance.Fallback
