import FaultTolerance.Wire.Data

/-! Writing JSON over several lines: two blanks for each level, one entry or element on a line,
and empty containers closed at once. -/
namespace FaultTolerance.Wire.Json

def hexChar (n : Nat) : Char := if n < 10 then Char.ofNat (48 + n) else Char.ofNat (87 + n)

/-- A character between the quotes of a string. -/
def escape (c : Char) : List Char :=
  if c = '"' then ['\\', '"']
  else if c = '\\' then ['\\', '\\']
  else if c = '\x08' then ['\\', 'b']
  else if c = '\x0c' then ['\\', 'f']
  else if c = '\n' then ['\\', 'n']
  else if c = '\r' then ['\\', 'r']
  else if c = '\t' then ['\\', 't']
  else if c.toNat < 0x20 then
    ['\\', 'u', '0', '0', hexChar (c.toNat / 16), hexChar (c.toNat % 16)]
  else [c]

def writeString (s : String) : String := .ofList ('"' :: s.toList.flatMap escape ++ ['"'])

/-- The start of a line at a level. -/
def newLine (level : Nat) : String := .ofList ('\n' :: List.replicate (2 * level) ' ')

mutual

/-- Data written at a level; further lines start there. -/
def pretty (level : Nat) : Data → String
  | .null => "null"
  | .boolean b => if b then "true" else "false"
  | .integer n => toString n
  | .decimal text => text
  | .string s => writeString s
  | .sequence [] => "[]"
  | .sequence (d :: ds) =>
    "[" ++ newLine (level + 1) ++ pretty (level + 1) d ++ prettyItems (level + 1) ds ++
      newLine level ++ "]"
  | .map [] => "\x7b\x7d"
  | .map ((key, d) :: entries) =>
    "\x7b" ++ newLine (level + 1) ++ writeString (key.getD "") ++ ": " ++ pretty (level + 1) d ++
      prettyEntries (level + 1) entries ++ newLine level ++ "\x7d"
  | .timestamp => "null"
  | .unusable => "null"
  | .broken => "null"

/-- The elements after the first one. -/
def prettyItems (level : Nat) : List Data → String
  | [] => ""
  | d :: ds => "," ++ newLine level ++ pretty level d ++ prettyItems level ds

/-- The entries after the first one. -/
def prettyEntries (level : Nat) : List (Option String × Data) → String
  | [] => ""
  | (key, d) :: entries =>
    "," ++ newLine level ++ writeString (key.getD "") ++ ": " ++ pretty level d ++
      prettyEntries level entries

end

end FaultTolerance.Wire.Json
