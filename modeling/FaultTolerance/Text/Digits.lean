/-! Digits with underscores between them. -/
namespace FaultTolerance.Text

/-- Digits up to the first character that is none. An underscore may separate two of them. -/
def scanMoreDigits (isDigit : Char → Bool) : List Char → Option (List Char × List Char)
  | '_' :: c :: cs =>
    if isDigit c then (scanMoreDigits isDigit cs).map fun (ds, cs) => (c :: ds, cs) else none
  | c :: cs =>
    if isDigit c then (scanMoreDigits isDigit cs).map fun (ds, cs) => (c :: ds, cs)
    else if c = '_' then none
    else some ([], c :: cs)
  | [] => some ([], [])

/-- At least one digit, and what follows the digits. -/
def scanDigits (isDigit : Char → Bool) : List Char → Option (List Char × List Char)
  | c :: cs => if isDigit c then scanMoreDigits isDigit (c :: cs) else none
  | [] => none

end FaultTolerance.Text
