/-! Structured data as it is read from a text or written to one.

A text may break off in the middle. What was read up to there is kept, and `broken` stands where
the reading stopped, so that a fault in the part before it is found first. -/
namespace FaultTolerance.Wire

inductive Data where
  | null
  | boolean (b : Bool)
  | integer (n : Int)
  /-- A number that is no integer, in its shortest form. -/
  | decimal (text : String)
  | string (s : String)
  | sequence (items : List Data)
  /-- Entries in the order of the text. A key that denotes no text is `none`. -/
  | map (entries : List (Option String × Data))
  /-- A date or a time. -/
  | timestamp
  /-- Something well-formed that denotes no value: a number that is too large, or a string with
  half of a surrogate pair. It can be passed over but not used. -/
  | unusable
  /-- The text makes no sense from here on. -/
  | broken
  deriving Repr, Inhabited, BEq

namespace Data

/-- A map with plain keys. -/
def record (entries : List (String × Data)) : Data := .map (entries.map fun (k, d) => (some k, d))

/-- An entry for a text that may be missing; without it there is no entry. -/
def textEntry (key : String) : Option String → List (String × Data)
  | some s => [(key, .string s)]
  | none => []

/-- The value of the first entry with the given key. -/
def lookup? (key : String) : Data → Option Data
  | .map entries => entries.lookup (some key)
  | _ => none

mutual

/-- Whether the data can be passed over: nothing in it is broken. -/
def isWhole : Data → Bool
  | .broken => false
  | .sequence items => areWhole items
  | .map entries => areWholeEntries entries
  | _ => true

def areWhole : List Data → Bool
  | [] => true
  | d :: ds => isWhole d && areWhole ds

def areWholeEntries : List (Option String × Data) → Bool
  | [] => true
  | (_, d) :: ds => isWhole d && areWholeEntries ds

end

/-! ## Views

What an entry of a map holds, or a neutral value where it holds nothing of the kind. -/

def textAt (d : Data) (key : String) : String :=
  match d.lookup? key with
  | some (.string s) => s
  | _ => ""

def textAt? (d : Data) (key : String) : Option String :=
  match d.lookup? key with
  | some (.string s) => some s
  | _ => none

def flagAt (d : Data) (key : String) : Bool :=
  match d.lookup? key with
  | some (.boolean b) => b
  | _ => false

def numberAt (d : Data) (key : String) : Nat :=
  match d.lookup? key with
  | some (.integer n) => n.toNat
  | _ => 0

def itemsAt (d : Data) (key : String) : List Data :=
  match d.lookup? key with
  | some (.sequence items) => items
  | _ => []

def recordAt (d : Data) (key : String) : Data := (d.lookup? key).getD .null

end Data
end FaultTolerance.Wire
