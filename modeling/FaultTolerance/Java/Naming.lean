import FaultTolerance.Text.Affix
import FaultTolerance.Text.Space

/-! Names of Java types as text: erasure, array dimensions, primitive names and the short form
of a qualified name. -/
namespace FaultTolerance.Java.Naming
open Text

/-! ## Erasure -/

/-- Drops white space everywhere and all that stands inside `depth` or more open angle brackets.
A closing bracket without an opening one is dropped too. -/
def eraseArguments : Nat → List Char → List Char
  | _, [] => []
  | depth, c :: cs =>
    if c = '<' then eraseArguments (depth + 1) cs
    else if c = '>' then eraseArguments (depth - 1) cs
    else if isSpace c || depth != 0 then eraseArguments depth cs
    else c :: eraseArguments depth cs

/-- Writes a closing `...` as the array suffix it stands for, once. -/
def varargsToArray (cs : List Char) : List Char :=
  match stripEnd? ['.', '.', '.'] cs with
  | some base => base ++ ['[', ']']
  | none => cs

/-- The erasure of a type as written: no white space, no type arguments, no `...`. -/
def eraseChars (cs : List Char) : List Char := varargsToArray (eraseArguments 0 cs)

/-- `eraseChars` on strings. -/
def erase (raw : String) : String := .ofList (eraseChars raw.toList)

/-! ## Array dimensions -/

/-- Splits reversed text into the number of `[]` it begins with and what follows them. -/
def splitDimensionsRev : List Char → Nat × List Char
  | ']' :: '[' :: cs => ((splitDimensionsRev cs).1 + 1, (splitDimensionsRev cs).2)
  | cs => (0, cs)

/-- The element type and the number of `[]` at the end of a type. -/
def splitDimensions (cs : List Char) : List Char × Nat :=
  ((splitDimensionsRev cs.reverse).2.reverse, (splitDimensionsRev cs.reverse).1)

/-- `n` array suffixes. -/
def dimensions : Nat → List Char
  | 0 => []
  | n + 1 => '[' :: ']' :: dimensions n

/-- How many `[]` stand anywhere in a type. -/
def countDimensions : List Char → Nat
  | '[' :: ']' :: cs => countDimensions cs + 1
  | _ :: cs => countDimensions cs
  | [] => 0

/-! ## Names -/

/-- The names of the primitive types, `void` not among them. -/
def primitives : List String :=
  ["boolean", "byte", "char", "short", "int", "long", "float", "double"]

def isPrimitive (name : String) : Bool := primitives.contains name

/-- The last segment of a name whose segments are separated by `.` or `$`. -/
def simpleName (name : String) : String :=
  .ofList (lastSegment (fun c => c = '.' || c = '$') name.toList)

/-- Two types are taken for the same when their erasures have the same simple name. -/
def sameErasedSimpleName (a b : String) : Bool := simpleName (erase a) = simpleName (erase b)

end FaultTolerance.Java.Naming
