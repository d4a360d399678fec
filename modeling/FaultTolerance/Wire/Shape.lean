import FaultTolerance.Wire.Misfit

/-! What is expected of data, and reading it against that.

`Shape.read` goes through the data in the order of the text and stops at the first fault. What
it returns is in normal form: records hold every field in the order of the shape, with the
defaults filled in, and choices are strings. -/
namespace FaultTolerance.Wire

inductive Shape where
  | string
  | boolean
  /-- A number from 0 up to 2³² - 1. -/
  | word
  /-- Something, or null. -/
  | optional (shape : Shape)
  | list (shape : Shape)
  /-- One of some names. -/
  | choice (names : List String)
  /-- A record with named fields, each with the value it has when it is left out. A strict record
  has no others. -/
  | record (name : String) (strict : Bool) (fields : List (String × Shape × Option Data))
  deriving Inhabited

/-- The points in which formats differ. -/
structure Format where
  /-- Whether `d` may stand beside a name that is the key of a map and not a string. -/
  unitFault? : Data → Option Fault
  /-- Whether a sequence may be longer than the record it stands for. -/
  allowsExtraElements : Bool

/-- Null beside a name, and no extra elements. -/
def Format.json : Format where
  unitFault?
    | .null => none
    | d => some (d.mistyped "unit")
  allowsExtraElements := false

/-- An empty table or array beside a name, and extra elements passed over. -/
def Format.toml : Format where
  unitFault?
    | .sequence [] => none
    | .map [] => none
    | _ => some .unreadable
  allowsExtraElements := true

/-- Reads data, or says what is wrong with it. -/
abbrev Reader := Data → Except Fault Data

/-- How a field of a record is read, and what it is when left out. -/
structure FieldReader where
  name : String
  read : Reader
  default? : Option Data

namespace FieldReader

def names (fields : List FieldReader) : List String := fields.map (·.name)

/-! ## Records from maps -/

/-- Reads one more entry of a map, after the fields in `values`. -/
def readEntry (strict : Bool) (fields : List FieldReader) (values : List (String × Data)) :
    Option String × Data → Except Fault (List (String × Data))
  | (none, _) => .error .unreadable
  | (some key, d) =>
    match fields.find? (·.name == key) with
    | none =>
      if strict then .error (.misfit (.unknownField key (names fields)))
      else if d.isWhole then .ok values
      else .error .unreadable
    | some field =>
      if (values.lookup key).isSome then .error (.misfit (.duplicateField key))
      else (field.read d).map fun d => values ++ [(key, d)]

/-- Fills in the defaults of the fields that were not read. The first field without one is
missing. -/
def complete (values : List (String × Data)) :
    List FieldReader → Except Fault (List (String × Data))
  | [] => .ok []
  | field :: fields =>
    match (values.lookup field.name).orElse fun _ => field.default? with
    | some d => (complete values fields).map ((field.name, d) :: ·)
    | none => .error (.misfit (.missingField field.name))

def readEntries (strict : Bool) (fields : List FieldReader)
    (entries : List (Option String × Data)) : Except Fault (List (String × Data)) := do
  complete (← entries.foldlM (readEntry strict fields) []) fields

/-! ## Records from sequences -/

/-- The phrase for a record of `n` fields read from a sequence. -/
def phrase (name : String) (n : Nat) : String :=
  "struct " ++ name ++ " with " ++ toString n ++ (if n = 1 then " element" else " elements")

/-- Reads the fields from the elements in turn, `n` of them being read already. -/
def readElements (fmt : Format) (expected : String) :
    Nat → List Data → List FieldReader → Except Fault (List (String × Data))
  | _, items, [] => if items.isEmpty || fmt.allowsExtraElements then .ok [] else .error .unreadable
  | n, d :: items, field :: fields => do
    let d ← field.read d
    return (field.name, d) :: (← readElements fmt expected (n + 1) items fields)
  | n, [], field :: fields =>
    match field.default? with
    | some d => (readElements fmt expected (n + 1) [] fields).map ((field.name, d) :: ·)
    | none => .error (.misfit (.invalidLength n expected))

end FieldReader

namespace Shape

def readString : Reader
  | .string s => .ok (.string s)
  | d => .error (d.mistyped "a string")

def readBoolean : Reader
  | .boolean b => .ok (.boolean b)
  | d => .error (d.mistyped "a boolean")

def readWord : Reader
  | .integer n =>
    if 0 ≤ n ∧ n < 0x100000000 then .ok (.integer n)
    else .error (.misfit (.invalidValue ("integer " ++ accented (toString n)) "u32"))
  | d => .error (d.mistyped "u32")

/-- Reads a name out of `names`, written as a string or as the key of a map. -/
def readChoice (fmt : Format) (names : List String) : Reader
  | .string s =>
    if names.contains s then .ok (.string s) else .error (.misfit (.unknownVariant s names))
  | .map ((some key, d) :: rest) =>
    if fmt.allowsExtraElements && !rest.isEmpty then .error .unreadable
    else if !names.contains key then .error (.misfit (.unknownVariant key names))
    else match fmt.unitFault? d with
      | some fault => .error fault
      | none => if rest.isEmpty then .ok (.string key) else .error .unreadable
  | _ => .error .unreadable

def readOptional (reader : Reader) : Reader
  | .null => .ok .null
  | d => reader d

def readList (reader : Reader) : Reader
  | .sequence items => (items.mapM reader).map .sequence
  | d => .error (d.mistyped "a sequence")

/-- The key under which a record sees a date or a time. -/
def timestampKey : String := "$__toml_private_datetime"

def readRecord (fmt : Format) (name : String) (strict : Bool) (fields : List FieldReader) : Reader
  | .map entries => (FieldReader.readEntries strict fields entries).map .record
  | .sequence items =>
    (FieldReader.readElements fmt (FieldReader.phrase name fields.length) 0 items fields).map
      .record
  | .timestamp =>
    (FieldReader.readEntries strict fields [(some timestampKey, .timestamp)]).map .record
  | d => .error (d.mistyped ("struct " ++ name))

mutual

/-- Reads data of a shape. -/
def read (fmt : Format) : Shape → Reader
  | .string => readString
  | .boolean => readBoolean
  | .word => readWord
  | .optional shape => readOptional (read fmt shape)
  | .list shape => readList (read fmt shape)
  | .choice names => readChoice fmt names
  | .record name strict fields => readRecord fmt name strict (fieldReaders fmt fields)

def fieldReaders (fmt : Format) : List (String × Shape × Option Data) → List FieldReader
  | [] => []
  | (name, shape, default?) :: fields =>
    ⟨name, read fmt shape, default?⟩ :: fieldReaders fmt fields

end

end Shape
end FaultTolerance.Wire
