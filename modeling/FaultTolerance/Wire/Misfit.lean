import FaultTolerance.Text.Quoted
import FaultTolerance.Wire.Data

/-! The ways in which data does not fit the shape that is expected of it, and their wording. -/
namespace FaultTolerance.Wire

inductive Misfit where
  /-- `found` is of another type. -/
  | invalidType (found expected : String)
  /-- `found` is of the right type and out of its range. -/
  | invalidValue (found expected : String)
  /-- A sequence ends after `length` elements. -/
  | invalidLength (length : Nat) (expected : String)
  | unknownField (name : String) (known : List String)
  | unknownVariant (name : String) (known : List String)
  | missingField (name : String)
  | duplicateField (name : String)
  deriving DecidableEq, Repr, Inhabited

/-- A name between grave accents. -/
def accented (name : String) : String := "`" ++ name ++ "`"

/-- The names of which one is expected. -/
def oneOf : List String → String
  | [] => "nothing"
  | [a] => accented a
  | [a, b] => accented a ++ " or " ++ accented b
  | names => "one of " ++ ", ".intercalate (names.map accented)

def Misfit.message : Misfit → String
  | .invalidType found expected => "invalid type: " ++ found ++ ", expected " ++ expected
  | .invalidValue found expected => "invalid value: " ++ found ++ ", expected " ++ expected
  | .invalidLength length expected =>
    "invalid length " ++ toString length ++ ", expected " ++ expected
  | .unknownField name known => "unknown field " ++ accented name ++ ", expected " ++ oneOf known
  | .unknownVariant name known =>
    "unknown variant " ++ accented name ++ ", expected " ++ oneOf known
  | .missingField name => "missing field " ++ accented name
  | .duplicateField name => "duplicate field " ++ accented name

/-- Why data cannot be read as a value of some type. -/
inductive Fault where
  /-- The text itself breaks the rules of its format. -/
  | unreadable
  | misfit (misfit : Misfit)
  deriving DecidableEq, Repr, Inhabited

/-- How a misfit names the data that was found. Data without a value has no name. -/
def Data.describe? : Data → Option String
  | .null => some "null"
  | .boolean b => some ("boolean " ++ accented (if b then "true" else "false"))
  | .integer n => some ("integer " ++ accented (toString n))
  | .decimal text => some ("floating point " ++ accented text)
  | .string s => some ("string " ++ Text.quoted s)
  | .sequence _ => some "sequence"
  | .map _ => some "map"
  | .timestamp => some "map"
  | .unusable => none
  | .broken => none

/-- The fault of data that should have been `expected`. -/
def Data.mistyped (d : Data) (expected : String) : Fault :=
  match d.describe? with
  | some found => .misfit (.invalidType found expected)
  | none => .unreadable

end FaultTolerance.Wire
