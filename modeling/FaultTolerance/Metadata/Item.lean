/-! Descriptors of configuration properties, and of the values suggested for them. -/
namespace FaultTolerance

/-- A configuration property. -/
structure ItemMetadata where
  name : String
  type : String
  description : Option String := none
  sourceType : Option String := none
  sourceField : Option String := none
  sourceMethod : Option String := none
  defaultValue : Option String := none
  extensionName : Option String := none
  required : Bool := false
  phase : Nat := 0
  /-- Whether the property comes from a compiled dependency. -/
  binary : Bool := false
  deriving DecidableEq, Repr, Inhabited

/-- One suggested value. -/
structure ValueHint where
  value : String
  description : Option String := none
  sourceType : Option String := none
  deriving DecidableEq, Repr, Inhabited

/-- The values suggested for the properties of one type. -/
structure ItemHint where
  name : String
  description : Option String := none
  sourceType : Option String := none
  isEnum : Bool := false
  binary : Bool := false
  values : List ValueHint := []
  deriving DecidableEq, Repr, Inhabited

/-- The properties and hints of one project. -/
structure ProjectInfo where
  projectUri : Option String := none
  properties : List ItemMetadata
  hints : List ItemHint
  deriving DecidableEq, Repr, Inhabited

namespace ProjectInfo

/-- The first property of a name. -/
def property? (i : ProjectInfo) (name : String) : Option ItemMetadata :=
  i.properties.find? (·.name == name)

/-- The first hint of a name. -/
def hint? (i : ProjectInfo) (name : String) : Option ItemHint := i.hints.find? (·.name == name)

end ProjectInfo
end FaultTolerance
