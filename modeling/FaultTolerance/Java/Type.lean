import FaultTolerance.Java.Descriptor
import FaultTolerance.Java.Annotation

/-! Types with their methods and fields. Names are qualified; nested types are joined to the
enclosing one with `$`. -/
namespace FaultTolerance.Java
open Text

/-- Where a type comes from. -/
inductive Origin where
  /-- A source document of the project. -/
  | source (uri : String)
  /-- A compiled dependency. -/
  | binary
  deriving DecidableEq, Repr, Inhabited

inductive Kind where
  | classType | interfaceType | enumType | recordType | annotationType
  deriving DecidableEq, Repr, Inhabited

/-- A method with erased, resolved types. -/
structure Method where
  name : String
  returnType : String
  parameterTypes : List String
  /-- The descriptor as a host states it. Unless one is stated it comes from the types. -/
  descriptor : String := Descriptor.ofMethod returnType parameterTypes
  annotations : List Annotation := []
  /-- The range of the method's name. -/
  range : Option Range := none
  deriving Repr, Inhabited, BEq

/-- The descriptor that comes from the types. -/
def Method.typesDescriptor (m : Method) : String :=
  Descriptor.ofMethod m.returnType m.parameterTypes

/-- The name followed by the descriptor. -/
def Method.signature (m : Method) : String := m.name ++ m.descriptor

structure Field where
  name : String
  type : String
  annotations : List Annotation := []
  range : Option Range := none
  deriving Repr, Inhabited, BEq

structure JavaType where
  name : String
  kind : Kind
  origin : Origin
  annotations : List Annotation := []
  methods : List Method := []
  fields : List Field := []
  deriving Repr, Inhabited, BEq

namespace JavaType

def simpleName (t : JavaType) : String := Naming.simpleName t.name

def isBinary (t : JavaType) : Bool := t.origin == .binary

/-- The document a source type is declared in. -/
def uri? (t : JavaType) : Option String :=
  match t.origin with
  | .source uri => some uri
  | .binary => none

end JavaType

/-- A program element that can carry annotations, with the type it belongs to. -/
inductive Element where
  | type (type : JavaType)
  | method (type : JavaType) (method : Method)
  | field (type : JavaType) (field : Field)
  deriving Repr, Inhabited

/-- The annotations the element itself stores. -/
def Element.annotations : Element → List Annotation
  | .type t => t.annotations
  | .method _ m => m.annotations
  | .field _ f => f.annotations

end FaultTolerance.Java
