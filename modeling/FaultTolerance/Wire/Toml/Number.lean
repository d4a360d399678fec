import FaultTolerance.Decimal.Shortest
import FaultTolerance.Text.Digits
import FaultTolerance.Wire.Data
import FaultTolerance.Wire.Toml.Text

/-! Numbers, dates and times in TOML. -/
namespace FaultTolerance.Wire.Toml
open Decimal Text

/-! ## Digits -/

/-- Whether a minus is there, and what follows the sign. -/
def scanSign : List Char → Bool × List Char
  | '+' :: cs => (false, cs)
  | '-' :: cs => (true, cs)
  | cs => (false, cs)

/-- The digits of a number before its point. A zero is not followed by others. -/
def scanWhole : List Char → Option (List Char × List Char)
  | '0' :: cs => some (['0'], cs)
  | cs => scanDigits Char.isDigit cs

/-- The number that digits denote in a base up to sixteen. -/
def numberOf (base : Nat) (digits : List Char) : Nat :=
  digits.foldl (fun n c => base * n + (hexDigit? c).getD 0) 0

/-! ## Integers -/

/-- An integer that 64 bits hold. -/
def integer? (n : Int) : Option Data :=
  if -0x8000000000000000 ≤ n ∧ n < 0x8000000000000000 then some (.integer n) else none

/-- Whether a character is a digit in a base up to sixteen. -/
def isDigitIn (base : Nat) (c : Char) : Bool := (hexDigit? c).any (· < base)

def scanBased (base : Nat) (cs : List Char) : Option (Data × List Char) := do
  let (digits, cs) ← scanDigits (isDigitIn base) cs
  return (← integer? (numberOf base digits), cs)

/-! ## Floating point numbers -/

/-- The floating point number nearest to `n · 10 ^ exponent`. -/
def nearest (n : Nat) (exponent : Int) : Float :=
  let top := exponent + width n
  if n = 0 || top < -400 then 0
  else if 400 < top then 1 / 0
  else Float.ofScientific n (exponent < 0) exponent.natAbs

/-- How a floating point number is written. -/
def floatText (negative : Bool) (x : Float) : String :=
  if x.isInf then (if negative then "-inf" else "inf")
  else { shortest x.toBits with negative := negative }.positional

/-- The power of ten after an `e`. -/
def scanPower : List Char → Option (Int × List Char)
  | c :: cs =>
    if c = 'e' || c = 'E' then do
      let (negative, cs) := scanSign cs
      let (digits, cs) ← scanDigits Char.isDigit cs
      let n : Int := numberOf 10 digits
      return (if negative then -n else n, cs)
    else none
  | [] => none

/-- The digits after a point. -/
def scanFraction : List Char → Option (List Char × List Char)
  | '.' :: cs => scanDigits Char.isDigit cs
  | _ => none

/-- A floating point number of which the digits before the point have been read. One that is too
large is refused unless it is negative. -/
def floating? (negative : Bool) (whole fraction : List Char) (power : Int) : Option Data :=
  let x := nearest (numberOf 10 (whole ++ fraction)) (power - fraction.length)
  if x.isInf && !negative then none else some (.decimal (floatText negative x))

/-- An integer or a floating point number. -/
def scanDecimal (cs : List Char) : Option (Data × List Char) := do
  let (negative, cs) := scanSign cs
  let (whole, cs) ← scanWhole cs
  match scanFraction cs, scanPower cs with
  | some (fraction, cs), _ =>
    let (power, cs) := (scanPower cs).getD (0, cs)
    return (← floating? negative whole fraction power, cs)
  | none, some (power, cs) => return (← floating? negative whole [] power, cs)
  | none, none =>
    let n : Int := numberOf 10 whole
    return (← integer? (if negative then -n else n), cs)

/-- Infinity, or what is no number. -/
def scanSpecial (cs : List Char) : Option (Data × List Char) :=
  let (negative, cs) := scanSign cs
  match cs with
  | 'i' :: 'n' :: 'f' :: cs => some (.decimal (if negative then "-inf" else "inf"), cs)
  | 'n' :: 'a' :: 'n' :: cs => some (.decimal "NaN", cs)
  | _ => none

/-! ## Dates and times -/

/-- A number of exactly two digits between two bounds. -/
def scanTwo (low high : Nat) : List Char → Option (Nat × List Char)
  | a :: b :: cs =>
    let n := numberOf 10 [a, b]
    if a.isDigit && b.isDigit && low ≤ n && n ≤ high then some (n, cs) else none
  | _ => none

/-- A given character. -/
def scanChar (c : Char) : List Char → Option (List Char)
  | d :: cs => if d = c then some cs else none
  | [] => none

def isLeapYear (year : Nat) : Bool := year % 4 = 0 && (year % 100 ≠ 0 || year % 400 = 0)

def daysIn (year month : Nat) : Nat :=
  if month = 2 then (if isLeapYear year then 29 else 28)
  else if [4, 6, 9, 11].contains month then 30
  else 31

def scanDate (cs : List Char) : Option (List Char) := do
  let (century, cs) ← scanTwo 0 99 cs
  let (year, cs) ← scanTwo 0 99 cs
  let (month, cs) ← scanTwo 1 12 (← scanChar '-' cs)
  let (_, cs) ← scanTwo 1 (daysIn (100 * century + year) month) (← scanChar '-' cs)
  return cs

/-- A fraction of a second has ten digits at most. -/
def skipSecondFraction (cs : List Char) : List Char :=
  match cs with
  | '.' :: ds =>
    let n := min (ds.takeWhile Char.isDigit).length 10
    if n = 0 then cs else ds.drop n
  | cs => cs

def scanTime (cs : List Char) : Option (List Char) := do
  let (_, cs) ← scanTwo 0 23 cs
  let (_, cs) ← scanTwo 0 59 (← scanChar ':' cs)
  let (_, cs) ← scanTwo 0 60 (← scanChar ':' cs)
  return skipSecondFraction cs

/-- The difference of a time from the universal one. -/
def scanOffset : List Char → Option (List Char)
  | c :: cs =>
    if c = 'Z' || c = 'z' then some cs
    else if c = '+' || c = '-' then do
      let (_, cs) ← scanTwo 0 23 cs
      let (_, cs) ← scanTwo 0 59 (← scanChar ':' cs)
      return cs
    else none
  | [] => none

/-- The time after a date. -/
def scanTimeOfDay : List Char → Option (List Char)
  | c :: cs =>
    if c = 'T' || c = 't' || c = ' ' then do
      let cs ← scanTime cs
      return (scanOffset cs).getD cs
    else none
  | [] => none

/-- A date with or without a time, or a time. -/
def scanTimestamp (cs : List Char) : Option (Data × List Char) :=
  match scanDate cs with
  | some cs => some (.timestamp, (scanTimeOfDay cs).getD cs)
  | none => (scanTime cs).map fun cs => (.timestamp, cs)

/-- A number, a date or a time. -/
def scanNumber : List Char → Option (Data × List Char)
  | '0' :: 'x' :: cs => scanBased 16 cs
  | '0' :: 'o' :: cs => scanBased 8 cs
  | '0' :: 'b' :: cs => scanBased 2 cs
  | cs => (scanTimestamp cs).or ((scanDecimal cs).or (scanSpecial cs))

end FaultTolerance.Wire.Toml
