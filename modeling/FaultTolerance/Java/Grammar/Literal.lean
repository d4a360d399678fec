import FaultTolerance.Text.Digits
import FaultTolerance.Text.Hexadecimal
import FaultTolerance.Text.Letter

/-! Which texts are identifiers and literals. -/
namespace FaultTolerance.Java.Grammar
open Text

/-! ## Identifiers -/

def isIdentifierStart (c : Char) : Bool := isLetter c || c = '_' || c = '$'

def isIdentifier : List Char → Bool
  | [] => false
  | c :: cs => isIdentifierStart c && cs.all fun c => isIdentifierStart c || isDecimalDigit c

/-! ## Numbers -/

def isOctal (c : Char) : Bool := '0' ≤ c && c ≤ '7'
def isBinary (c : Char) : Bool := c = '0' || c = '1'
def isHexadecimal (c : Char) : Bool := (hexDigit? c).isSome

/-- What follows digits of a class. -/
def skipDigits (isDigit : Char → Bool) (cs : List Char) : Option (List Char) :=
  (scanDigits isDigit cs).map Prod.snd

/-- What follows the digits of a decimal integer, of which the first is a zero only when it is
the last one too. -/
def skipPlain : List Char → Option (List Char)
  | '0' :: cs => some cs
  | cs => skipDigits Char.isDigit cs

/-- Whether nothing follows but one of some letters, or nothing at all. -/
def endsWithin (letters : List Char) : List Char → Bool
  | [] => true
  | [c] => letters.contains c
  | _ => false

def skipSign : List Char → List Char
  | '+' :: cs => cs
  | '-' :: cs => cs
  | cs => cs

/-- What follows an exponent after one of two marks. -/
def skipExponent (mark capital : Char) (digits : List Char → Option (List Char)) :
    List Char → Option (List Char)
  | c :: cs => if c = mark || c = capital then digits (skipSign cs) else none
  | [] => none

def floatSuffixes : List Char := ['f', 'F', 'd', 'D']

/-- Whether a text is a number in a base other than ten, after a zero. -/
def isBasedInteger : List Char → Bool
  | c :: cs =>
    if c = 'x' || c = 'X' then (skipDigits isHexadecimal cs).any (endsWithin ['l', 'L'])
    else if c = 'b' || c = 'B' then (skipDigits isBinary cs).any (endsWithin ['l', 'L'])
    else if c = 'o' || c = 'O' then (skipDigits isOctal cs).any (endsWithin ['l', 'L'])
    else (skipDigits isOctal (c :: cs)).any (endsWithin ['l', 'L'])
  | [] => false

def isInteger (cs : List Char) : Bool :=
  (skipPlain cs).any (endsWithin ['l', 'L']) ||
    match cs with
    | '0' :: cs => isBasedInteger cs
    | _ => false

/-- What follows the exponent of a decimal number, if it has one. -/
def skipDecimalExponent (cs : List Char) : List Char :=
  (skipExponent 'e' 'E' (skipDigits Char.isDigit) cs).getD cs

/-- Whether a text is what may follow a decimal point. -/
def isDecimalFraction (cs : List Char) : Bool :=
  endsWithin floatSuffixes (skipDecimalExponent ((skipDigits Char.isDigit cs).getD cs))

def isDecimalFloat (cs : List Char) : Bool :=
  match cs with
  | '.' :: cs => cs.head?.any Char.isDigit && isDecimalFraction cs
  | _ =>
    (match skipDigits Char.isDigit cs with
    | some ('.' :: cs) => isDecimalFraction cs
    | _ => false) ||
    (match skipPlain cs with
    | some [] => false
    | some (c :: cs) => endsWithin floatSuffixes (skipDecimalExponent (c :: cs))
    | none => false)

/-- Whether a text is what may follow the digits of a hexadecimal number that is no integer. -/
def isHexadecimalRest (cs : List Char) : Bool :=
  cs.isEmpty || (skipExponent 'p' 'P' skipPlain cs).any (endsWithin floatSuffixes)

def isHexadecimalFloat : List Char → Bool
  | '0' :: x :: cs =>
    (x = 'x' || x = 'X') &&
      match skipDigits isHexadecimal cs, cs with
      | some ('.' :: cs), _ => isHexadecimalRest ((skipDigits isHexadecimal cs).getD cs)
      | some cs, _ => isHexadecimalRest cs
      | none, '.' :: cs => (skipDigits isHexadecimal cs).any isHexadecimalRest
      | none, _ => false
  | _ => false

def isNumber (cs : List Char) : Bool := isInteger cs || isDecimalFloat cs || isHexadecimalFloat cs

/-! ## Strings and characters -/

/-- Whether a text begins with hexadecimal digits and a closing bracket. -/
def isBracedCode (cs : List Char) : Bool :=
  cs.head?.any isHexadecimal && (cs.dropWhile isHexadecimal).head? == some '\x7d'

/-- Whether every backslash in a text begins an escape sequence. -/
def isEscaped : List Char → Bool
  | [] => true
  | ['\\'] => false
  | '\\' :: 'x' :: cs => (cs.take 2).length = 2 && (cs.take 2).all isHexadecimal && isEscaped cs
  | '\\' :: 'u' :: '\x7b' :: cs => isBracedCode cs && isEscaped cs
  | '\\' :: 'u' :: cs => (cs.take 4).length = 4 && (cs.take 4).all isHexadecimal && isEscaped cs
  | '\\' :: _ :: cs => isEscaped cs
  | _ :: cs => isEscaped cs

/-- Whether a text in quotes is a string. Every text block is one. -/
def isString : List Char → Bool
  | '"' :: '"' :: '"' :: _ => true
  | cs => isEscaped (cs.drop 1).dropLast

/-- Whether a text between apostrophes is a character. There may be several. -/
def isCharacter (cs : List Char) : Bool := 2 < cs.length

end FaultTolerance.Java.Grammar
