import FaultTolerance.Text.LineTable
import FaultTolerance.Java.Naming

/-! Annotations as they are applied to types, methods and fields, with the values of their
members kept close to the source. -/
namespace FaultTolerance.Java
open Text

/-- The value of an annotation member. -/
inductive Value where
  /-- The characters between the quotes, escape sequences left as they are. -/
  | string (text : String)
  /-- A number with its sign and type suffix as written. -/
  | number (text : String)
  | boolean (value : Bool)
  /-- The characters between the apostrophes. -/
  | char (text : String)
  /-- The resolved type of a class literal. -/
  | classRef (type : String)
  /-- A constant, and the type it is taken from when one is written. -/
  | constant (owner : Option String) (name : String)
  | array (items : List Value)
  /-- Any other expression, as written. -/
  | other (text : String)
  deriving Repr, Inhabited, BEq

/-- The text of a string literal; no other value has one. -/
def Value.stringText? : Value → Option String
  | .string s => some s
  | _ => none

/-- A member written in an annotation, with the range of its value. -/
structure Member where
  name : String
  value : Value
  range : Option Range := none
  deriving Repr, Inhabited, BEq

/-- An annotation. Its name is qualified, or as written where it could not be resolved. -/
structure Annotation where
  name : String
  members : List Member := []
  range : Option Range := none
  deriving Repr, Inhabited, BEq

namespace Annotation

def simpleName (a : Annotation) : String := Naming.simpleName a.name

/-- The first member of a name. -/
def member? (a : Annotation) (name : String) : Option Member := a.members.find? (·.name == name)

/-- Whether `written` denotes the annotation type `qualified`: it is that name, or it has no dot
and is the last of its dotted segments. -/
def denotes (written qualified : String) : Bool :=
  written == qualified ||
    (!written.toList.contains '.' &&
      match stripEnd? written.toList qualified.toList with
      | some pre => pre.getLast? == some '.'
      | none => false)

/-- Whether the annotation denotes the annotation type `qualified`. -/
def matchesName (a : Annotation) (qualified : String) : Bool := denotes a.name qualified

end Annotation
end FaultTolerance.Java
