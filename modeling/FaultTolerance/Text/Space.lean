/-! White space as the Unicode property White_Space has it, and the three operations that
depend on it: dropping it everywhere, at both ends, or at the end only. -/
namespace FaultTolerance.Text

/-- The characters with the Unicode property White_Space. -/
def isSpace (c : Char) : Bool :=
  ('\t' ≤ c && c ≤ '\r') || c = ' ' || c = '\u0085' || c = '\u00a0' || c = '\u1680' ||
    ('\u2000' ≤ c && c ≤ '\u200a') || c = '\u2028' || c = '\u2029' || c = '\u202f' ||
    c = '\u205f' || c = '\u3000'

/-- The text without any of its white space. -/
def compact (cs : List Char) : List Char := cs.filter fun c => !isSpace c

/-- The text without white space at its end. -/
def trimEnd (cs : List Char) : List Char := (cs.reverse.dropWhile isSpace).reverse

/-- The text without white space at either end. -/
def trim (cs : List Char) : List Char := trimEnd (cs.dropWhile isSpace)

theorem compact_append (a b : List Char) : compact (a ++ b) = compact a ++ compact b :=
  List.filter_append ..

theorem compact_compact (cs : List Char) : compact (compact cs) = compact cs := by
  simp [compact]

end FaultTolerance.Text
