import FaultTolerance.Metadata.Item
import FaultTolerance.Wire.Shape

/-! The written form of a project's metadata. Texts that are missing are left out. -/
namespace FaultTolerance
open Wire

/-- A text that may be missing. -/
private def optionalText (name : String) : String × Shape × Option Data :=
  (name, .optional .string, some .null)

/-- A flag that is off when left out. -/
private def optionalFlag (name : String) : String × Shape × Option Data :=
  (name, .boolean, some (.boolean false))

namespace ItemMetadata

def shape : Shape := .record "ItemMetadata" false [
  ("name", .string, none),
  ("type", .string, none),
  optionalText "description",
  optionalText "sourceType",
  optionalText "sourceField",
  optionalText "sourceMethod",
  optionalText "defaultValue",
  optionalText "extensionName",
  optionalFlag "required",
  ("phase", .word, some (.integer 0)),
  optionalFlag "binary"]

def toData (i : ItemMetadata) : Data := .record (
  [("name", .string i.name), ("type", .string i.type)] ++
  Data.textEntry "description" i.description ++
  Data.textEntry "sourceType" i.sourceType ++
  Data.textEntry "sourceField" i.sourceField ++
  Data.textEntry "sourceMethod" i.sourceMethod ++
  Data.textEntry "defaultValue" i.defaultValue ++
  Data.textEntry "extensionName" i.extensionName ++
  [("required", .boolean i.required), ("phase", .integer i.phase), ("binary", .boolean i.binary)])

/-- The item that data in normal form stands for. -/
def ofData (d : Data) : ItemMetadata where
  name := d.textAt "name"
  type := d.textAt "type"
  description := d.textAt? "description"
  sourceType := d.textAt? "sourceType"
  sourceField := d.textAt? "sourceField"
  sourceMethod := d.textAt? "sourceMethod"
  defaultValue := d.textAt? "defaultValue"
  extensionName := d.textAt? "extensionName"
  required := d.flagAt "required"
  phase := d.numberAt "phase"
  binary := d.flagAt "binary"

def read (fmt : Format) (d : Data) : Except Fault ItemMetadata := (shape.read fmt d).map ofData

end ItemMetadata

namespace ValueHint

def shape : Shape := .record "ValueHint" false [
  ("value", .string, none),
  optionalText "description",
  optionalText "sourceType"]

def toData (h : ValueHint) : Data := .record (
  [("value", .string h.value)] ++
  Data.textEntry "description" h.description ++
  Data.textEntry "sourceType" h.sourceType)

/-- The value that data in normal form stands for. -/
def ofData (d : Data) : ValueHint where
  value := d.textAt "value"
  description := d.textAt? "description"
  sourceType := d.textAt? "sourceType"

def read (fmt : Format) (d : Data) : Except Fault ValueHint := (shape.read fmt d).map ofData

end ValueHint

namespace ItemHint

def shape : Shape := .record "ItemHint" false [
  ("name", .string, none),
  optionalText "description",
  optionalText "sourceType",
  optionalFlag "isEnum",
  optionalFlag "binary",
  ("values", .list ValueHint.shape, some (.sequence []))]

def toData (h : ItemHint) : Data := .record (
  [("name", .string h.name)] ++
  Data.textEntry "description" h.description ++
  Data.textEntry "sourceType" h.sourceType ++
  [("isEnum", .boolean h.isEnum), ("binary", .boolean h.binary),
    ("values", .sequence (h.values.map ValueHint.toData))])

/-- The hint that data in normal form stands for. -/
def ofData (d : Data) : ItemHint where
  name := d.textAt "name"
  description := d.textAt? "description"
  sourceType := d.textAt? "sourceType"
  isEnum := d.flagAt "isEnum"
  binary := d.flagAt "binary"
  values := (d.itemsAt "values").map ValueHint.ofData

def read (fmt : Format) (d : Data) : Except Fault ItemHint := (shape.read fmt d).map ofData

end ItemHint

namespace ProjectInfo

def shape : Shape := .record "ProjectInfo" false [
  optionalText "projectUri",
  ("properties", .list ItemMetadata.shape, none),
  ("hints", .list ItemHint.shape, none)]

def toData (i : ProjectInfo) : Data := .record (
  Data.textEntry "projectUri" i.projectUri ++
  [("properties", .sequence (i.properties.map ItemMetadata.toData)),
    ("hints", .sequence (i.hints.map ItemHint.toData))])

/-- The metadata that data in normal form stands for. -/
def ofData (d : Data) : ProjectInfo where
  projectUri := d.textAt? "projectUri"
  properties := (d.itemsAt "properties").map ItemMetadata.ofData
  hints := (d.itemsAt "hints").map ItemHint.ofData

def read (fmt : Format) (d : Data) : Except Fault ProjectInfo := (shape.read fmt d).map ofData

end ProjectInfo
end FaultTolerance
