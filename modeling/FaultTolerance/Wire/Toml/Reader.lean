import FaultTolerance.Wire.Misfit
import FaultTolerance.Wire.Toml.Number
import FaultTolerance.Wire.Toml.Table

/-! Reading TOML. -/
namespace FaultTolerance.Wire.Toml

/-! ## Values -/

mutual

/-- A value. It may hold others down to `depth` more levels; the second argument bounds the
number of steps. -/
def scanValue (depth : Nat) : Nat → List Char → Option (Data × List Char)
  | 0, _ => none
  | fuel + 1, cs =>
    match cs with
    | 't' :: 'r' :: 'u' :: 'e' :: cs => some (.boolean true, cs)
    | 'f' :: 'a' :: 'l' :: 's' :: 'e' :: cs => some (.boolean false, cs)
    | '"' :: _ => (scanString cs).map fun (text, cs) => (.string (.ofList text), cs)
    | '\'' :: _ => (scanString cs).map fun (text, cs) => (.string (.ofList text), cs)
    | '[' :: cs =>
      if depth = 0 then none
      else (scanItems (depth - 1) fuel cs).map fun (items, cs) => (.sequence items, cs)
    | '{' :: cs =>
      if depth = 0 then none
      else match skipBlank cs with
        | '}' :: cs => some (.map [], cs)
        | cs => (scanPairs (depth - 1) [] fuel cs).map fun (es, cs) => (es.toData, cs)
    | cs => scanNumber cs

/-- The elements of an array up to its end. A comma may follow the last one. -/
def scanItems (depth : Nat) : Nat → List Char → Option (List Data × List Char)
  | 0, _ => none
  | fuel + 1, cs =>
    match skipSpace cs with
    | ']' :: cs => some ([], cs)
    | cs => do
      let (d, cs) ← scanValue depth fuel cs
      match skipSpace cs with
      | ']' :: cs => return ([d], cs)
      | ',' :: cs =>
        let (items, cs) ← scanItems depth fuel cs
        return (d :: items, cs)
      | _ => none

/-- The entries of an inline table up to its end, after those in `es`; there is at least one
more. -/
def scanPairs (depth : Nat) (es : Entries) : Nat → List Char → Option (Entries × List Char)
  | 0, _ => none
  | fuel + 1, cs => do
    let (keys, cs) ← scanKey cs
    let (d, cs) ← scanValue depth fuel (skipBlank (← scanChar '=' cs))
    let es ← es.assign d keys
    match skipBlank cs with
    | '}' :: cs => return (es, cs)
    | ',' :: cs => scanPairs depth es fuel cs
    | _ => none

end

/-! ## Documents -/

/-- What a document has said so far: its entries, and the header that it is under. -/
structure Progress where
  entries : Entries := []
  header : List String := []
  deriving Repr

namespace Progress

/-- Begins the table of a header, or with `ofArray` one more table of an array. -/
def begin (p : Progress) (ofArray : Bool) (keys : List String) : Option Progress := do
  let key ← keys.getLast?
  let add := if ofArray then Entries.addTableOfArray key else Entries.addTable key
  return ⟨← p.entries.within add keys.dropLast, keys⟩

/-- Adds a value to the table that the document is in. -/
def assign (p : Progress) (keys : List String) (d : Data) : Option Progress := do
  return { p with entries := ← p.entries.within (·.assign d keys) p.header }

end Progress

/-- A line with a key and a value, which may take up several lines. -/
def scanAssignment (p : Progress) (cs : List Char) : Option (Progress × List Char) := do
  let (keys, cs) ← scanKey cs
  let cs := skipBlank (← scanChar '=' cs)
  let (d, cs) ← scanValue (depthLimit - 1) (2 * cs.length + 2) cs
  let cs ← scanLineEnd cs
  return (← p.assign keys d, cs)

/-- The line of a header after its opening brackets. -/
def scanHeader (p : Progress) (ofArray : Bool) (cs : List Char) :
    Option (Progress × List Char) := do
  let (keys, cs) ← scanKey cs
  let cs ← scanChar ']' cs
  let cs ← if ofArray then scanChar ']' cs else some cs
  let cs ← scanLineEnd cs
  return (← p.begin ofArray keys, cs)

/-- The lines of a document. The first argument bounds their number. -/
def scanLines : Nat → Progress → List Char → Option Progress
  | 0, _, _ => none
  | fuel + 1, p, cs =>
    match skipBlank cs with
    | [] => some p
    | '[' :: '[' :: cs => do
      let (p, cs) ← scanHeader p true cs
      scanLines fuel p cs
    | '[' :: cs => do
      let (p, cs) ← scanHeader p false cs
      scanLines fuel p cs
    | c :: cs =>
      if c = '#' || c = '\n' || c = '\r' then do
        let cs ← scanLineEnd (c :: cs)
        scanLines fuel p cs
      else do
        let (p, cs) ← scanAssignment p (c :: cs)
        scanLines fuel p cs

/-- The data of a document. A byte order mark may stand in front. -/
def data? (cs : List Char) : Option Data :=
  let cs := match cs with
    | '\ufeff' :: cs => cs
    | cs => cs
  (scanLines (cs.length + 1) {} cs).map fun p => p.entries.toData

/-- Reads a document as a single value. -/
def decode {α : Type} (read : Data → Except Fault α) (text : String) : Except Fault α :=
  match data? text.toList with
  | some d => read d
  | none => .error .unreadable

end FaultTolerance.Wire.Toml
