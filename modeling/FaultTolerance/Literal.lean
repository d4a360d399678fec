import FaultTolerance.Java.Annotation

/-! Annotation values written as configuration literals. Integers become decimal numerals with
the value Java gives them, other numbers lose their separators and their type suffix. -/
namespace FaultTolerance.Literal
open Java Text

/-! ## Integers -/

/-- The value of a digit in a radix of at most sixteen. -/
def digit? (radix : Nat) (c : Char) : Option Nat :=
  let n :=
    if '0' ≤ c && c ≤ '9' then c.toNat - 48
    else if 'a' ≤ c && c ≤ 'f' then c.toNat - 87
    else if 'A' ≤ c && c ≤ 'F' then c.toNat - 55
    else radix
  if n < radix then some n else none

/-- Reads digits from the left, `n` being the number read so far. -/
def readDigits? (radix : Nat) : Nat → List Char → Option Nat
  | n, [] => some n
  | n, c :: cs => (digit? radix c).bind fun d => readDigits? radix (radix * n + d) cs

/-- The number that a non-empty row of digits denotes. -/
def natural? (radix : Nat) (cs : List Char) : Option Nat :=
  if cs.isEmpty then none else readDigits? radix 0 cs

/-- The radix that a literal's first characters announce, and the digits after them. A leading
zero announces octal digits unless it stands alone. -/
def splitRadix : List Char → Nat × List Char
  | '0' :: 'x' :: cs => (16, cs)
  | '0' :: 'X' :: cs => (16, cs)
  | '0' :: 'b' :: cs => (2, cs)
  | '0' :: 'B' :: cs => (2, cs)
  | '0' :: c :: cs => (8, c :: cs)
  | cs => (10, cs)

/-- The literal without the suffix of a long integer, and whether it had one. -/
def splitLong (cs : List Char) : List Char × Bool :=
  match cs.getLast? with
  | some c => if c = 'l' ∨ c = 'L' then (cs.dropLast, true) else (cs, false)
  | none => (cs, false)

/-- The value of an unsigned integer literal, or of its negation. Hexadecimal, octal and binary
literals denote the two's complement patterns of their width; a decimal literal may reach the
smallest number's magnitude and no further. -/
def integer? (negative : Bool) (cs : List Char) : Option Int :=
  let (body, long) := splitLong cs
  let (radix, digits) := splitRadix body
  let width := if long then 64 else 32
  (natural? radix digits).bind fun n =>
    let size := Nat.pow 2 width
    if n ≥ size ∨ (radix = 10 ∧ n > size / 2) then none
    else some (Int.bmod (if negative then -(n : Int) else n) size)

/-! ## Numbers -/

/-- Splits off the sign and says whether it is a minus. -/
def splitSign : List Char → Bool × List Char
  | '-' :: cs => (true, cs)
  | '+' :: cs => (false, cs)
  | cs => (false, cs)

/-- Whether a character at the end of a number that is no integer stands for its type. After
`0x` the letters `d` and `f` are digits. -/
def isTypeSuffix (hexadecimal : Bool) (c : Char) : Bool :=
  c = 'l' || c = 'L' || (!hexadecimal && (c = 'f' || c = 'F' || c = 'd' || c = 'D'))

/-- The number without its type suffix. A suffix that is all of the text stays. -/
def dropTypeSuffix (hexadecimal : Bool) (cs : List Char) : List Char :=
  match cs.getLast? with
  | some c => if isTypeSuffix hexadecimal c && cs.length > 1 then cs.dropLast else cs
  | none => cs

/-- A Java number as a configuration source writes it. -/
def ofNumber (text : String) : String :=
  let cleaned := text.toList.filter (· ≠ '_')
  let (negative, digits) := splitSign cleaned
  match integer? negative digits with
  | some value => toString value
  | none => .ofList (dropTypeSuffix ((splitRadix digits).1 = 16) cleaned)

/-! ## Values -/

mutual

/-- A value as a configuration source writes it. -/
def ofValue : Value → String
  | .string s => s
  | .char s => s
  | .classRef type => type
  | .number n => ofNumber n
  | .boolean b => if b then "true" else "false"
  | .constant _ name => name
  | .array items => ofValues items
  | .other text => text

/-- Several values, separated by commas. -/
def ofValues : List Value → String
  | [] => ""
  | [v] => ofValue v
  | v :: vs => ofValue v ++ "," ++ ofValues vs

end

end FaultTolerance.Literal
