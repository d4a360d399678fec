import FaultTolerance.Java.Type

/-! A project's types as a host offers them.

* `Scope` says which types of a project a search covers,
* `ModelError` lists why a question may go unanswered,
* `Model` is the set of questions that an analysis may ask. -/
namespace FaultTolerance
open Java Text

/-- Which types of a project a search covers. -/
inductive Scope where
  | sourcesOnly
  | sourcesAndDependencies
  deriving DecidableEq, Repr, Inhabited

def Scope.covers : Scope → Origin → Bool
  | _, .source _ => true
  | .sourcesAndDependencies, .binary => true
  | .sourcesOnly, .binary => false

/-- Why a question about a project has no answer. -/
inductive ModelError where
  | projectNotLoaded (project : String)
  | unknownType (id : Nat)
  | unknownDocument (uri : String)
  | unparsable (uri reason : String)
  deriving DecidableEq, Repr, Inhabited

def ModelError.message : ModelError → String
  | .projectNotLoaded project => "project `" ++ project ++ "` is not loaded"
  | .unknownType id => "unknown type id " ++ toString id
  | .unknownDocument uri => "document `" ++ uri ++ "` is not part of the project"
  | .unparsable uri reason => "failed to parse `" ++ uri ++ "`: " ++ reason

/-- The questions a project answers. Types are named by numbers. -/
structure Model where
  /-- The types of a scope, in a fixed order. -/
  resolveProject : Scope → Except ModelError (List Nat)
  type : Nat → Except ModelError JavaType
  /-- The types declared in a document, each before those nested in it. -/
  typesInDocument : String → Except ModelError (List Nat)
  /-- The methods of a type, which may be known where the type itself is not. -/
  methodsOf : Nat → Except ModelError (List Method)
  /-- The annotations in force on an element. -/
  annotationsOn : Element → List Annotation
  /-- The range of a member's value in its document. -/
  rangeOf : Member → Option Range

end FaultTolerance
