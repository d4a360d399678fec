import FaultTolerance.Java.Source.NameScope
import FaultTolerance.Java.Type

/-! What the text of a declaration is read against, and what is read off the text of a literal. -/
namespace FaultTolerance.Java.Source
open Text

/-- What the text of a declaration is read against. -/
structure Setting where
  names : NameScope
  table : LineTable
  origin : Origin

namespace Setting

/-! ## Literals -/

/-- The text between the quotes of a string literal. In a text block it begins after the line
breaks that follow the opening quotes. -/
def unquoted (raw : List Char) : List Char :=
  let quotes := ['"', '"', '"']
  match (stripStart? quotes raw).bind (stripEnd? quotes) with
  | some block => block.dropWhile fun c => c = '\r' || c = '\n'
  | none => ((stripStart? ['"'] raw).bind (stripEnd? ['"'])).getD raw

/-- The text without the apostrophes at its ends. -/
def withoutApostrophes (raw : List Char) : List Char :=
  ((raw.dropWhile (· = '\'')).reverse.dropWhile (· = '\'')).reverse

/-- The type of a class literal: what stands in front of the last dot and `class`. -/
def literalType (raw : List Char) : List Char :=
  let type := trimEnd ((stripEnd? "class".toList raw).getD raw)
  (stripEnd? ['.'] type).getD type

end Setting
end FaultTolerance.Java.Source
