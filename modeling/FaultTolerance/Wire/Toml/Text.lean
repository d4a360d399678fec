import FaultTolerance.Text.Hexadecimal

/-! The text of a TOML document below the level of values: blanks and comments, strings and keys.

A function called `scan…` splits off what its name says and gives nothing when the text does not
begin with it. -/
namespace FaultTolerance.Wire.Toml
open Text

/-! ## Between values -/

def isBlank (c : Char) : Bool := c = ' ' || c = '\t'

/-- The characters of comments and strings: the tab is the only control character. -/
def isPlain (c : Char) : Bool := c = '\t' || (' ' ≤ c && c ≠ '\x7f')

def skipBlank (cs : List Char) : List Char := cs.dropWhile isBlank

def scanNewline : List Char → Option (List Char)
  | '\n' :: cs => some cs
  | '\r' :: '\n' :: cs => some cs
  | _ => none

def skipNewline (cs : List Char) : List Char := (scanNewline cs).getD cs

def skipComment : List Char → List Char
  | '#' :: cs => cs.dropWhile isPlain
  | cs => cs

/-- The rest of a line: blanks, a comment, and the end of the line or of the text. -/
def scanLineEnd (cs : List Char) : Option (List Char) :=
  match skipComment (skipBlank cs) with
  | [] => some []
  | cs => scanNewline cs

/-- Skips blanks, line ends and comments, beginning inside a comment or outside. -/
def skipSpaceFrom : Bool → List Char → List Char
  | _, [] => []
  | _, '\n' :: cs => skipSpaceFrom false cs
  | _, '\r' :: '\n' :: cs => skipSpaceFrom false cs
  | true, c :: cs => if isPlain c then skipSpaceFrom true cs else c :: cs
  | false, c :: cs =>
    if isBlank c then skipSpaceFrom false cs
    else if c = '#' then skipSpaceFrom true cs
    else c :: cs

/-- Skips blanks, line ends and comments. -/
def skipSpace (cs : List Char) : List Char := skipSpaceFrom false cs

/-! ## Strings -/

/-- The character of a number that is one. -/
def scalar? (n : Nat) : Option Char := if n.isValidChar then some (Char.ofNat n) else none

/-- What stands after a backslash. -/
def scanEscape : List Char → Option (Char × List Char)
  | 'b' :: cs => some ('\x08', cs)
  | 't' :: cs => some ('\t', cs)
  | 'n' :: cs => some ('\n', cs)
  | 'f' :: cs => some ('\x0c', cs)
  | 'r' :: cs => some ('\r', cs)
  | '"' :: cs => some ('"', cs)
  | '\\' :: cs => some ('\\', cs)
  | 'u' :: cs => scanCode 4 cs
  | 'U' :: cs => scanCode 8 cs
  | _ => none
where
  /-- A character as `n` hexadecimal digits. -/
  scanCode (n : Nat) (cs : List Char) : Option (Char × List Char) :=
    if (cs.take n).length = n then
      ((hexNumber? (cs.take n)).bind scalar?).map fun c => (c, cs.drop n)
    else none

/-- The rest of a string on one line. The first argument bounds its length. -/
def scanLine (quote : Char) (escapes : Bool) : Nat → List Char → Option (List Char × List Char)
  | 0, _ => none
  | _, [] => none
  | fuel + 1, c :: cs =>
    if c = quote then some ([], cs)
    else if escapes && c = '\\' then do
      let (c, cs) ← scanEscape cs
      let (text, cs) ← scanLine quote escapes fuel cs
      return (c :: text, cs)
    else if isPlain c then do
      let (text, cs) ← scanLine quote escapes fuel cs
      return (c :: text, cs)
    else none

/-- Skips the end of a line, and all blanks and line ends after it. -/
def scanContinuation (cs : List Char) : Option (List Char) :=
  (scanNewline (skipBlank cs)).map skipLines
where
  skipLines : List Char → List Char
    | '\n' :: cs => skipLines cs
    | '\r' :: '\n' :: cs => skipLines cs
    | c :: cs => if isBlank c then skipLines cs else c :: cs
    | [] => []

/-- The rest of a string on several lines. Three quotes end it; one or two more belong to the
text. The first argument bounds its length. -/
def scanBlock (quote : Char) (escapes : Bool) : Nat → List Char → Option (List Char × List Char)
  | 0, _ => none
  | _, [] => none
  | fuel + 1, c :: cs =>
    let quotes := ((c :: cs).takeWhile (· = quote)).length
    if 3 ≤ quotes then
      some (List.replicate (min quotes 5 - 3) quote, (c :: cs).drop (min quotes 5))
    else if escapes && c = '\\' then
      match scanContinuation cs with
      | some cs => scanBlock quote escapes fuel cs
      | none => do
        let (c, cs) ← scanEscape cs
        let (text, cs) ← scanBlock quote escapes fuel cs
        return (c :: text, cs)
    else match scanNewline (c :: cs) with
      | some cs => do
        let (text, cs) ← scanBlock quote escapes fuel cs
        return ('\n' :: text, cs)
      | none =>
        if isPlain c then do
          let (text, cs) ← scanBlock quote escapes fuel cs
          return (c :: text, cs)
        else none

/-- A string of any of the four kinds. -/
def scanString : List Char → Option (List Char × List Char)
  | '"' :: '"' :: '"' :: cs => scanBlock '"' true (cs.length + 1) (skipNewline cs)
  | '\'' :: '\'' :: '\'' :: cs => scanBlock '\'' false (cs.length + 1) (skipNewline cs)
  | '"' :: cs => scanLine '"' true (cs.length + 1) cs
  | '\'' :: cs => scanLine '\'' false (cs.length + 1) cs
  | _ => none

/-! ## Keys -/

/-- Arrays, inline tables and dotted keys nest less deep than this. -/
def depthLimit : Nat := 80

/-- The characters of a key without quotes. -/
def isBare (c : Char) : Bool := c.isAlphanum || c = '-' || c = '_'

def scanSimpleKey : List Char → Option (String × List Char)
  | '"' :: cs => (scanLine '"' true (cs.length + 1) cs).map fun (key, cs) => (.ofList key, cs)
  | '\'' :: cs => (scanLine '\'' false (cs.length + 1) cs).map fun (key, cs) => (.ofList key, cs)
  | cs =>
    let key := cs.takeWhile isBare
    if key.isEmpty then none else some (.ofList key, cs.dropWhile isBare)

/-- A key with dots and the blanks around it. The first argument bounds the number of its
segments. -/
def scanKeyWithin : Nat → List Char → Option (List String × List Char)
  | 0, _ => none
  | n + 1, cs => do
    let (key, cs) ← scanSimpleKey (skipBlank cs)
    match skipBlank cs with
    | '.' :: cs =>
      let (keys, cs) ← scanKeyWithin n cs
      return (key :: keys, cs)
    | cs => return ([key], cs)

/-- A key with dots and the blanks around it. -/
def scanKey (cs : List Char) : Option (List String × List Char) :=
  scanKeyWithin (depthLimit - 1) cs

end FaultTolerance.Wire.Toml
