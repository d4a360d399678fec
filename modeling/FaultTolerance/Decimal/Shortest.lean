/-! The shortest decimal that reads back as a given binary floating point number, and two ways
of writing it. All arithmetic is exact. -/
namespace FaultTolerance

/-- The number `digits · 10 ^ exponent`, or its negation. -/
structure Decimal where
  negative : Bool
  digits : Nat
  exponent : Int
  deriving DecidableEq, Repr, Inhabited

namespace Decimal

/-! ## The numbers that round to a given one

A finite number is `m · 2 ^ q`. In units of `2 ^ (q - 2)` it is `4 m`, its upper neighbour is at
a distance of 4 and its lower neighbour at a distance of 4 or, just above a power of two, of 2.
The numbers that round to it reach half way to either side, ends included when `m` is even. -/

/-- The leading bit of a significand, which is not stored. -/
def hiddenBit : Nat := 0x10000000000000

/-- The significand, the exponent of two, and whether the lower neighbour is closer. -/
def decode (bits : UInt64) : Nat × Int × Bool :=
  let fraction : Nat := bits.toNat % hiddenBit
  let exponent : Nat := bits.toNat / hiddenBit % 2048
  if exponent = 0 then (fraction, -1074, false)
  else (fraction + hiddenBit, (exponent : Int) - 1075, fraction = 0 && exponent > 1)

/-- The interval of the numbers that round to one, as numerators over a common denominator. -/
structure Interval where
  low : Nat
  value : Nat
  high : Nat
  denominator : Nat
  closed : Bool

def interval (bits : UInt64) : Interval :=
  let (m, q, close) := decode bits
  let up := Nat.pow 2 (q - 2).toNat
  { low := (4 * m - (if close then 1 else 2)) * up
    value := 4 * m * up
    high := (4 * m + 2) * up
    denominator := Nat.pow 2 (2 - q).toNat
    closed := m % 2 = 0 }

/-- Whether `digits · 10 ^ exponent` is in the interval. -/
def Interval.contains (i : Interval) (digits : Nat) (exponent : Int) : Bool :=
  let n := digits * Nat.pow 10 exponent.toNat * i.denominator
  let scale := Nat.pow 10 (-exponent).toNat
  if i.closed then i.low * scale ≤ n && n ≤ i.high * scale
  else i.low * scale < n && n < i.high * scale

/-! ## The shortest of them -/

/-- The number of decimal digits of `n`. -/
def width (n : Nat) : Nat := (Nat.toDigits 10 n).length

/-- The least `k` with `num · 10 ^ k ≥ den`, searched from `k` on. -/
def leadingZeros (num den : Nat) : Nat → Nat → Nat
  | 0, k => k
  | fuel + 1, k => if den ≤ num * Nat.pow 10 k then k else leadingZeros num den fuel (k + 1)

/-- The exponent of the leading decimal digit of `num / den`. -/
def magnitude (num den : Nat) : Int :=
  if den ≤ num then (width (num / den) : Int) - 1 else -(leadingZeros num den 400 0 : Int)

/-- The two neighbours of the value among the multiples of `10 ^ exponent`; the nearer one that
is in the interval, the even one of two equally near. -/
def onGrid (i : Interval) (exponent : Int) : Option Nat :=
  let num := i.value * Nat.pow 10 (-exponent).toNat
  let den := i.denominator * Nat.pow 10 exponent.toNat
  let below := num / den
  match i.contains below exponent && below != 0, i.contains (below + 1) exponent with
  | true, true =>
    let twice := 2 * (num - below * den)
    if twice < den || (twice = den && below % 2 = 0) then some below else some (below + 1)
  | true, false => some below
  | false, true => some (below + 1)
  | false, false => none

/-- Tries grids from coarse to fine. -/
def search (i : Interval) (top : Int) : Nat → Nat → Nat × Int
  | 0, n => (i.value / i.denominator, top - n)
  | fuel + 1, n =>
    match onGrid i (top - n) with
    | some digits => (digits, top - n)
    | none => search i top fuel (n + 1)

/-- Takes trailing zeros out of the digits. -/
def normalize : Nat → Nat → Int → Nat × Int
  | 0, digits, exponent => (digits, exponent)
  | fuel + 1, digits, exponent =>
    if digits % 10 = 0 && digits != 0 then normalize fuel (digits / 10) (exponent + 1)
    else (digits, exponent)

/-- The shortest decimal that reads back as the finite number with the given bits. -/
def shortest (bits : UInt64) : Decimal :=
  let negative := bits.toNat / 0x8000000000000000 = 1
  let i := interval bits
  if i.value = 0 then ⟨negative, 0, 0⟩
  else
    let (digits, exponent) := search i (magnitude i.value i.denominator) 17 0
    let (digits, exponent) := normalize 20 digits exponent
    ⟨negative, digits, exponent⟩

/-! ## Writing a decimal -/

def zeros (n : Nat) : List Char := List.replicate n '0'

def sign (negative : Bool) : List Char := if negative then ['-'] else []

/-- Every digit in its place, and a point with at least one digit after it. -/
def positional (d : Decimal) : String :=
  let digits := Nat.toDigits 10 d.digits
  let point := (digits.length : Int) + d.exponent
  let body :=
    if 0 ≤ d.exponent then digits ++ zeros d.exponent.toNat ++ ['.', '0']
    else if 0 < point then digits.take point.toNat ++ '.' :: digits.drop point.toNat
    else ['0', '.'] ++ zeros (-point).toNat ++ digits
  .ofList (sign d.negative ++ body)

/-- Positional from `10 ^ -5` to below `10 ^ 16`, and with a power of ten elsewhere. -/
def scientific (d : Decimal) : String :=
  let digits := Nat.toDigits 10 d.digits
  let point := (digits.length : Int) + d.exponent
  if d.digits = 0 || (-5 < point && point ≤ 16) then d.positional
  else
    let power := 'e' :: (toString (point - 1)).toList
    let body := match digits with
      | [c] => c :: power
      | c :: cs => c :: '.' :: cs ++ power
      | [] => power
    .ofList (sign d.negative ++ body)

end Decimal
end FaultTolerance
