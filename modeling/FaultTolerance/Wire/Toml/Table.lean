import FaultTolerance.Wire.Data

/-! Tables as the lines of a TOML document build them up.

What may still be added to a table depends on how it came to be. An entry once given is never
replaced, and its key keeps its place; only a table that a longer header implied moves behind the
others when its own header comes. -/
namespace FaultTolerance.Wire.Toml

/-- How a table came to be. -/
inductive TableOrigin where
  /-- By a header of its own. -/
  | header
  /-- By the header of a table inside it. -/
  | implied
  /-- By a dotted key. -/
  | dotted
  deriving DecidableEq, Repr, Inhabited

/-- What a key holds. -/
inductive Node where
  /-- A value, to which nothing can be added. -/
  | value (data : Data)
  | table (origin : TableOrigin) (entries : List (String × Node))
  /-- The tables with the same header, of which the last one can be added to. -/
  | tables (earlier : List (List (String × Node))) (last : List (String × Node))
  deriving Repr, Inhabited

/-- The entries of a table in order. -/
abbrev Entries := List (String × Node)

namespace Entries

/-- Changes what a key holds, or adds the key at the end. -/
def alter (key : String) (f : Option Node → Option Node) : Entries → Option Entries
  | [] => (f none).map fun n => [(key, n)]
  | (k, n) :: es =>
    if k = key then (f (some n)).map fun n => (k, n) :: es
    else (alter key f es).map ((k, n) :: ·)

/-- Adds to the table that the keys of a header lead to. Tables missing on the way are implied. -/
def within (add : Entries → Option Entries) : List String → Entries → Option Entries
  | [], es => add es
  | key :: keys, es =>
    es.alter key fun
      | none => (within add keys []).map (.table .implied)
      | some (.table origin es) => (within add keys es).map (.table origin)
      | some (.tables earlier last) => (within add keys last).map (.tables earlier)
      | some (.value _) => none

/-- Adds a table for its header. -/
def addTable (key : String) (es : Entries) : Option Entries :=
  match es.lookup key with
  | none => some (es ++ [(key, .table .header [])])
  | some (.table .implied inner) =>
    some (es.filter (·.1 ≠ key) ++ [(key, .table .header inner)])
  | some _ => none

/-- Adds one more table of an array for its header. -/
def addTableOfArray (key : String) (es : Entries) : Option Entries :=
  es.alter key fun
    | none => some (.tables [] [])
    | some (.tables earlier last) => some (.tables (earlier ++ [last]) [])
    | some _ => none

/-- Adds a value for a dotted key. Its last segment goes into a table that a dotted key made,
and those before it do not lead through a table with a header of its own. -/
def assign (d : Data) : List String → Entries → Option Entries
  | [], _ => none
  | [key], es =>
    es.alter key fun
      | none => some (.value d)
      | some _ => none
  | key :: next :: keys, es =>
    es.alter key fun
      | none => (assign d (next :: keys) []).map (.table .dotted)
      | some (.table .dotted es) => (assign d (next :: keys) es).map (.table .dotted)
      | some (.table .implied es) =>
        if keys.isEmpty then none else (assign d (next :: keys) es).map (.table .implied)
      | some (.tables earlier last) =>
        if keys.isEmpty then none else (assign d (next :: keys) last).map (.tables earlier)
      | some (.table .header _) => none
      | some (.value _) => none

end Entries

/-! ## Tables as data -/

mutual

def Node.toData : Node → Data
  | .value d => d
  | .table _ es => .map (entriesData es)
  | .tables earlier last => .sequence (tablesData earlier ++ [.map (entriesData last)])

def entriesData : List (String × Node) → List (Option String × Data)
  | [] => []
  | (key, n) :: es => (some key, n.toData) :: entriesData es

def tablesData : List (List (String × Node)) → List Data
  | [] => []
  | es :: tables => .map (entriesData es) :: tablesData tables

end

def Entries.toData (es : Entries) : Data := .map (entriesData es)

end FaultTolerance.Wire.Toml
