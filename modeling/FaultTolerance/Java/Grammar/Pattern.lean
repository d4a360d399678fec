import FaultTolerance.Java.Grammar.Literal
import FaultTolerance.Java.Source.Token

/-! Grammars as data, and which sources they accept.

A reading of a source is a stack of patterns for what is still to come. `step` takes all readings
past one more token; a source is accepted when one of them is complete at its end. No rule may
begin with itself.

A word is a keyword where one of the readings waits for a keyword of that text, and an identifier
everywhere else. -/
namespace FaultTolerance.Java.Grammar
open Source

/-! ## Patterns -/

/-- What one token can be. -/
inductive Terminal where
  | keyword (text : String)
  /-- A word that is not reserved even here. -/
  | hint (text : String)
  | symbol (text : String)
  /-- A keyword or a symbol with nothing in front of it. -/
  | adjoined (text : String)
  | identifier
  | number
  | string
  | character
  deriving DecidableEq, Repr, Inhabited

/-- What several tokens can be, with rules of the type `ρ`. -/
inductive Pattern (ρ : Type) where
  | terminal (t : Terminal)
  | rule (r : ρ)
  | sequence (ps : List (Pattern ρ))
  | oneOf (ps : List (Pattern ρ))
  | optional (p : Pattern ρ)
  /-- Any number of times, none included. -/
  | many (p : Pattern ρ)
  deriving BEq, Repr, Inhabited

namespace Pattern
variable {ρ : Type}

/-- The pattern of a keyword or a symbol. -/
def ofText (text : String) : Pattern ρ :=
  .terminal (if text.toList.head?.any Char.isAlpha then .keyword text else .symbol text)

instance : Coe String (Pattern ρ) := ⟨ofText⟩

def identifier : Pattern ρ := .terminal .identifier

/-- One or more. -/
def some1 (p : Pattern ρ) : Pattern ρ := .sequence [p, .many p]

/-- One or more, with commas between them. -/
def separated (p : Pattern ρ) : Pattern ρ := .sequence [p, .many (.sequence [",", p])]

/-- None or more, with commas between them. -/
def list (p : Pattern ρ) : Pattern ρ := .optional (separated p)

end Pattern

/-! ## Readings -/

/-- What is still to come, in order. -/
abbrev Reading (ρ : Type) := List (Pattern ρ)

section
variable {ρ : Type} (rules : ρ → Pattern ρ)

/-- The readings that a reading amounts to, each complete or with a terminal in front. The first
argument bounds the number of rules that are opened on the way. -/
def expand : Nat → Reading ρ → List (Reading ρ)
  | 0, _ => []
  | _, [] => [[]]
  | n + 1, p :: ps =>
    match p with
    | .terminal t => [.terminal t :: ps]
    | .rule r => expand n (rules r :: ps)
    | .sequence qs => expand n (qs ++ ps)
    | .oneOf qs => qs.flatMap fun q => expand n (q :: ps)
    | .optional q => expand n (q :: ps) ++ expand n ps
    | .many q => expand n (q :: .many q :: ps) ++ expand n ps

/-- `expand` with a bound that leaves room for every pattern of the reading. -/
def expansions (r : Reading ρ) : List (Reading ρ) := expand rules (100 * (r.length + 1)) r

/-- Whether a terminal reserves the word that a token is. -/
def Terminal.reserves (t : Token) : Terminal → Bool
  | .keyword text => t.text == text
  | .adjoined text => t.text == text && t.before.isEmpty
  | _ => false

/-- Whether a token, reserved as a keyword or not, is what a terminal stands for. -/
def Terminal.accepts (reserved : Bool) (t : Token) : Terminal → Bool
  | .keyword text => t.isKeyword text
  | .hint text => t.isKeyword text
  | .symbol text => t.isSymbol text
  | .adjoined text => t.text == text && t.before.isEmpty
  | .identifier => t.isWord && !reserved && isIdentifier t.text.toList
  | .number => t.kind == .number && isNumber t.text.toList
  | .string => t.kind == .string && isString t.text.toList
  | .character => t.kind == .char && isCharacter t.text.toList

/-- The terminal in front of a reading. -/
def front? : Reading ρ → Option Terminal
  | .terminal t :: _ => some t
  | _ => none

variable [BEq ρ]

/-- The readings after one more token. -/
def step (readings : List (Reading ρ)) (t : Token) : List (Reading ρ) :=
  let expanded := readings.flatMap (expansions rules)
  let reserved := t.isWord && expanded.any fun r => (front? r).any (·.reserves t)
  ((expanded.filter fun r => (front? r).any (·.accepts reserved t)).map List.tail).eraseDups

/-- Whether some tokens are what a rule stands for. -/
def accepts (start : ρ) (ts : List Token) : Bool :=
  let readings := ts.foldl (step rules) [[.rule start]]
  (readings.flatMap (expansions rules)).any List.isEmpty

end
end FaultTolerance.Java.Grammar
