import FaultTolerance.Decimal.Shortest
import FaultTolerance.Wire.Data

/-! Numbers in JSON. One without fraction and exponent is an integer where 64 bits hold it. All
others are floating point: the digits are gathered in 64 bits, those that do not fit count as
zeros before the point and are dropped after it, and the result is scaled by a power of ten. -/
namespace FaultTolerance.Wire.Json
open Decimal

/-- The parts of a number as written. -/
structure NumberText where
  negative : Bool
  integer : List Char
  fraction : List Char
  /-- Whether the exponent is negative, and its digits. -/
  exponent : Option (Bool × List Char)
  deriving Repr

/-- Splits off the fraction, which has a digit if there is a point. -/
def scanFraction : List Char → Option (List Char × List Char)
  | '.' :: cs =>
    let digits := cs.takeWhile Char.isDigit
    if digits.isEmpty then none else some (digits, cs.dropWhile Char.isDigit)
  | cs => some ([], cs)

/-- Splits off the exponent, which has a digit if it is there. -/
def scanExponent : List Char → Option (Option (Bool × List Char) × List Char)
  | [] => some (none, [])
  | c :: cs =>
    if c = 'e' || c = 'E' then
      let (negative, cs) := match cs with
        | '+' :: cs => (false, cs)
        | '-' :: cs => (true, cs)
        | cs => (false, cs)
      let digits := cs.takeWhile Char.isDigit
      if digits.isEmpty then none
      else some (some (negative, digits), cs.dropWhile Char.isDigit)
    else some (none, c :: cs)

/-- Splits off a number. Its first digit is a zero only when no digit follows. -/
def scanNumber (cs : List Char) : Option (NumberText × List Char) := do
  let (negative, cs) := match cs with
    | '-' :: cs => (true, cs)
    | cs => (false, cs)
  let integer := cs.takeWhile Char.isDigit
  guard (!integer.isEmpty && (integer.head? != some '0' || integer.length == 1))
  let (fraction, cs) ← scanFraction (cs.dropWhile Char.isDigit)
  let (exponent, cs) ← scanExponent cs
  return (⟨negative, integer, fraction, exponent⟩, cs)

/-- The greatest number of 64 bits. -/
def maxWord : Nat := 0xFFFFFFFFFFFFFFFF

/-- Gathers digits as long as they fit; what is left over comes back. -/
def gather (n : Nat) : List Char → Nat × List Char
  | [] => (n, [])
  | c :: cs =>
    let next := 10 * n + (c.toNat - 48)
    if next ≤ maxWord then gather next cs else (n, c :: cs)

/-- Scales `x` by `10 ^ exponent` in steps that stay in range. Nothing is left of a number that
is too large. -/
def scale (x : Float) (exponent : Int) : Nat → Option Float
  | 0 => some 0
  | fuel + 1 =>
    if exponent.natAbs ≤ 308 then
      let power := Float.ofScientific 1 false exponent.natAbs
      if 0 ≤ exponent then
        let y := x * power
        if y.isInf then none else some y
      else some (x / power)
    else if x == 0 then some x
    else if 0 ≤ exponent then none
    else scale (x / Float.ofScientific 1 false 308) (exponent + 308) fuel

/-- The floating point number with a sign. -/
def floating (negative : Bool) (significand : Nat) (exponent : Int) : Data :=
  match scale (Float.ofNat significand) exponent 8 with
  | some x => .decimal { shortest x.toBits with negative := negative }.scientific
  | none => .unusable

/-- The number that an exponent's digits denote, up to a bound that no number survives. -/
def exponentValue (negative : Bool) (digits : List Char) : Int :=
  let n := (digits.foldl (fun n c => 10 * n + (c.toNat - 48)) 0 : Nat)
  if negative then -(n : Int) else n

def NumberText.value (t : NumberText) : Data :=
  let (n, left) := gather 0 t.integer
  match t.fraction, t.exponent with
  | [], none =>
    if !left.isEmpty then floating t.negative n left.length
    else if !t.negative then .integer n
    else if n = 0 || n > 0x8000000000000000 then floating true n 0
    else .integer (-(n : Int))
  | fraction, exponent =>
    let (n, dropped) := gather n fraction
    let places : Int := (fraction.length : Int) - dropped.length
    let shift := match exponent with
      | some (negative, digits) => exponentValue negative digits
      | none => 0
    floating t.negative n (left.length - places + shift)

end FaultTolerance.Wire.Json
