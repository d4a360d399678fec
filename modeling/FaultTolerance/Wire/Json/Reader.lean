import FaultTolerance.Text.Hexadecimal
import FaultTolerance.Wire.Json.Number
import FaultTolerance.Wire.Misfit

/-! Reading JSON. A text that breaks off is read up to where it does. -/
namespace FaultTolerance.Wire.Json
open Text

/-! ## Strings -/

/-- The characters that may stand between tokens. -/
def isBlank (c : Char) : Bool := c = ' ' || c = '\n' || c = '\t' || c = '\r'

def skipBlank (cs : List Char) : List Char := cs.dropWhile isBlank

/-- Reads four hexadecimal digits. -/
def scanUnit : List Char → Option (Nat × List Char)
  | a :: b :: c :: d :: cs => (hexNumber? [a, b, c, d]).map fun n => (n, cs)
  | _ => none

/-- What a letter after a backslash stands for. -/
def shortEscape? : Char → Option Char
  | '"' => some '"'
  | '\\' => some '\\'
  | '/' => some '/'
  | 'b' => some '\x08'
  | 'f' => some '\x0c'
  | 'n' => some '\n'
  | 'r' => some '\r'
  | 't' => some '\t'
  | _ => none

def isHighSurrogate (n : Nat) : Bool := 0xD800 ≤ n && n < 0xDC00
def isLowSurrogate (n : Nat) : Bool := 0xDC00 ≤ n && n < 0xE000

/-- A piece of a string between its quotes: a character, or half of a surrogate pair. -/
inductive Piece where
  | char (c : Char)
  | half

/-- Splits off one piece. A text that no string may hold gives none. -/
def scanPiece : List Char → Option (Piece × List Char)
  | '\\' :: 'u' :: cs => do
    let (n, cs) ← scanUnit cs
    if isLowSurrogate n then return (.half, cs)
    if !isHighSurrogate n then return (.char (Char.ofNat n), cs)
    match cs with
    | '\\' :: 'u' :: rest =>
      let (m, rest) ← scanUnit rest
      if isLowSurrogate m then
        return (.char (Char.ofNat (0x10000 + (n - 0xD800) * 0x400 + (m - 0xDC00))), rest)
      return (.half, cs)
    | _ => return (.half, cs)
  | '\\' :: c :: cs => (shortEscape? c).map fun c => (.char c, cs)
  | c :: cs => if c = '\\' || c.toNat < 0x20 then none else some (.char c, cs)
  | [] => none

/-- Reads a string after its opening quote: its text, which a half pair spoils, and what follows
the closing quote. -/
def scanString : Nat → List Char → Option (Option (List Char) × List Char)
  | 0, _ => none
  | fuel + 1, cs =>
    match cs with
    | '"' :: cs => some (some [], cs)
    | cs => do
      let (piece, cs) ← scanPiece cs
      let (text, cs) ← scanString fuel cs
      match piece with
      | .char c => return (text.map (c :: ·), cs)
      | .half => return (none, cs)

def readString (cs : List Char) : Data × List Char :=
  match scanString (cs.length + 1) cs with
  | some (some text, cs) => (.string (.ofList text), cs)
  | some (none, cs) => (.unusable, cs)
  | none => (.broken, [])

/-! ## Values -/

mutual

/-- Reads a value. The first argument bounds the number of steps. -/
def readValue : Nat → List Char → Data × List Char
  | 0, _ => (.broken, [])
  | fuel + 1, cs =>
    match skipBlank cs with
    | 'n' :: 'u' :: 'l' :: 'l' :: cs => (.null, cs)
    | 't' :: 'r' :: 'u' :: 'e' :: cs => (.boolean true, cs)
    | 'f' :: 'a' :: 'l' :: 's' :: 'e' :: cs => (.boolean false, cs)
    | '"' :: cs => readString cs
    | '[' :: cs =>
      match skipBlank cs with
      | ']' :: cs => (.sequence [], cs)
      | cs =>
        let (items, cs) := readItems fuel cs
        (.sequence items, cs)
    | '{' :: cs =>
      match skipBlank cs with
      | '}' :: cs => (.map [], cs)
      | cs =>
        let (entries, cs) := readEntries fuel cs
        (.map entries, cs)
    | cs =>
      match scanNumber cs with
      | some (n, cs) => (n.value, cs)
      | none => (.broken, [])

/-- Reads the elements of an array up to its end; there is at least one. -/
def readItems : Nat → List Char → List Data × List Char
  | 0, _ => ([.broken], [])
  | fuel + 1, cs =>
    let (d, cs) := readValue fuel cs
    match skipBlank cs with
    | ']' :: cs => ([d], cs)
    | ',' :: cs =>
      let (items, cs) := readItems fuel cs
      (d :: items, cs)
    | _ => ([d, .broken], [])

/-- Reads the entries of an object up to its end; there is at least one. -/
def readEntries : Nat → List Char → List (Option String × Data) × List Char
  | 0, _ => ([(none, .broken)], [])
  | fuel + 1, cs =>
    match skipBlank cs with
    | '"' :: cs =>
      match readString cs with
      | (.broken, _) => ([(none, .broken)], [])
      | (key, cs) =>
        let key := match key with
          | .string s => some s
          | _ => none
        match skipBlank cs with
        | ':' :: cs =>
          let (d, cs) := readValue fuel cs
          match skipBlank cs with
          | '}' :: cs => ([(key, d)], cs)
          | ',' :: cs =>
            let (entries, cs) := readEntries fuel cs
            ((key, d) :: entries, cs)
          | _ => ([(key, d), (none, .broken)], [])
        | _ => ([(key, .broken)], [])
    | _ => ([(none, .broken)], [])

end

/-- Reads a text as a single value. What is wrong with the value is found before anything that
follows it. -/
def decode {α : Type} (read : Data → Except Fault α) (text : String) : Except Fault α := do
  let cs := text.toList
  let (d, rest) := readValue (2 * cs.length + 2) cs
  let a ← read d
  if (skipBlank rest).isEmpty then return a else throw .unreadable

end FaultTolerance.Wire.Json
