import FaultTolerance.Java.Naming

/-! Descriptors of types and methods as a Java virtual machine writes them, for type names that
are already resolved. -/
namespace FaultTolerance.Java.Descriptor
open Naming

/-- The letter of a primitive type or of `void`. -/
def letter? : String → Option Char
  | "void" => some 'V'
  | "boolean" => some 'Z'
  | "byte" => some 'B'
  | "char" => some 'C'
  | "short" => some 'S'
  | "int" => some 'I'
  | "long" => some 'J'
  | "float" => some 'F'
  | "double" => some 'D'
  | _ => none

/-- The descriptor of an erased type without dimensions. -/
def ofBase (base : List Char) : List Char :=
  match letter? (.ofList base) with
  | some c => [c]
  | none => 'L' :: base.map (fun c => if c = '.' then '/' else c) ++ [';']

/-- The descriptor of a type as written: an opening bracket for each dimension, then its base. -/
def ofTypeChars (type : List Char) : List Char :=
  let (base, n) := splitDimensions (eraseChars type)
  List.replicate n '[' ++ ofBase base

def ofType (type : String) : String := .ofList (ofTypeChars type.toList)

/-- The parameters' descriptors in parentheses, then that of the return type. -/
def ofMethod (returnType : String) (parameterTypes : List String) : String :=
  .ofList ('(' :: parameterTypes.flatMap (fun p => ofTypeChars p.toList) ++
    ')' :: ofTypeChars returnType.toList)

end FaultTolerance.Java.Descriptor
