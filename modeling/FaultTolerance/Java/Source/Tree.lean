import FaultTolerance.Java.Source.Token

/-! Sources as trees of brackets.

`Tree.ofTokens` pairs the brackets. A curly one that closes also closes the brackets left open
inside it, the end of the source closes all, and a bracket that closes nothing is left as it is.
`Tree.joined` then puts annotations together, each with its name and its arguments. -/
namespace FaultTolerance.Java.Source

inductive Bracket where
  | round | square | curly
  deriving DecidableEq, Repr, Inhabited

def Bracket.opening? (t : Token) : Option Bracket :=
  if t.isSymbol "(" then some .round
  else if t.isSymbol "[" then some .square
  else if t.isSymbol "\x7b" then some .curly
  else none

def Bracket.closing? (t : Token) : Option Bracket :=
  if t.isSymbol ")" then some .round
  else if t.isSymbol "]" then some .square
  else if t.isSymbol "\x7d" then some .curly
  else none

inductive Tree where
  | leaf (token : Token)
  | group (bracket : Bracket) (opening : Token) (content : List Tree) (closing : Option Token)
  /-- An annotation: its mark, the tokens of its name, and its arguments if it has any. -/
  | marked (mark : Token) (name : List Token) (arguments : Option Tree)
  deriving Repr, Inhabited

namespace Tree

/-! ## Pairing brackets -/

/-- A bracket that is still open, with the trees before it, the last one first. -/
structure Frame where
  bracket : Bracket
  opening : Token
  outer : List Tree

/-- Closes the innermost bracket; `current` holds the trees inside it, the last one first. -/
def Frame.close (f : Frame) (current : List Tree) (closing : Option Token) : List Tree :=
  .group f.bracket f.opening current.reverse closing :: f.outer

/-- Closes brackets up to the innermost one of a kind. -/
def closeUpTo (bracket : Bracket) (closing : Token) (current : List Tree) :
    List Frame → List Tree × List Frame
  | [] => (current, [])
  | f :: frames =>
    if f.bracket = bracket then (f.close current (some closing), frames)
    else closeUpTo bracket closing (f.close current none) frames

/-- Closes all brackets. -/
def closeAll (current : List Tree) : List Frame → List Tree
  | [] => current
  | f :: frames => closeAll (f.close current none) frames

/-- Whether a closing bracket has a partner: the innermost one, or any for a curly one. -/
def hasPartner (bracket : Bracket) (frames : List Frame) : Bool :=
  match bracket with
  | .curly => frames.any (·.bracket = .curly)
  | b => frames.head?.any (·.bracket = b)

/-- Reads tokens inside the brackets `frames`, after the trees in `current`. -/
def pair (current : List Tree) (frames : List Frame) : List Token → List Tree
  | [] => (closeAll current frames).reverse
  | t :: ts =>
    match Bracket.opening? t, Bracket.closing? t with
    | some bracket, _ => pair [] (⟨bracket, t, current⟩ :: frames) ts
    | none, some bracket =>
      if hasPartner bracket frames then
        let (current, frames) := closeUpTo bracket t current frames
        pair current frames ts
      else pair (.leaf t :: current) frames ts
    | none, none => pair (.leaf t :: current) frames ts

def ofTokens (ts : List Token) : List Tree := pair [] [] ts

/-! ## Tokens and tests -/

mutual

/-- The tokens of a tree in the order of the source. -/
def tokens : Tree → List Token
  | .leaf t => [t]
  | .group _ opening content closing => opening :: tokensOf content ++ closing.toList
  | .marked mark name arguments =>
    mark :: name ++ match arguments with
      | some a => tokens a
      | none => []

def tokensOf : List Tree → List Token
  | [] => []
  | t :: ts => tokens t ++ tokensOf ts

end

def isKeyword (w : String) : Tree → Bool
  | .leaf t => t.isKeyword w
  | _ => false

def isSymbol (s : String) : Tree → Bool
  | .leaf t => t.isSymbol s
  | _ => false

/-- The token of a word. -/
def word? : Tree → Option Token
  | .leaf t => if t.isWord then some t else none
  | _ => none

def isGroup (bracket : Bracket) : Tree → Bool
  | .group b .. => b = bracket
  | _ => false

/-- A pair of square brackets with nothing in it. -/
def isDimension : Tree → Bool
  | .group .square _ [] _ => true
  | _ => false

def isAnnotation : Tree → Bool
  | .marked .. => true
  | _ => false

/-! ## Annotations -/

/-- Splits off the rest of a dotted name: dots, each with a word after it. -/
def dottedRest : List Tree → List Token × List Tree
  | .leaf dot :: .leaf w :: ts =>
    if dot.isSymbol "." && w.isWord then
      let (name, rest) := dottedRest ts
      (dot :: w :: name, rest)
    else ([], .leaf dot :: .leaf w :: ts)
  | ts => ([], ts)

/-- Splits off a dotted name. -/
def dotted : List Tree → List Token × List Tree
  | .leaf w :: ts =>
    if w.isWord then
      let (name, rest) := dottedRest ts
      (w :: name, rest)
    else ([], .leaf w :: ts)
  | ts => ([], ts)

/-- Puts a mark together with the name and the arguments that follow it. The mark of an
annotation type's declaration stays alone. -/
def joinMark (mark : Token) (ts : List Tree) : List Tree :=
  match dotted ts with
  | ([], _) => .leaf mark :: ts
  | (w :: name, rest) =>
    if w.isKeyword "interface" then .leaf mark :: ts
    else match rest with
      | .group .round opening content closing :: rest =>
        .marked mark (w :: name) (some (.group .round opening content closing)) :: rest
      | rest => .marked mark (w :: name) none :: rest

mutual

/-- The tree with the annotations inside it put together. -/
def joined : Tree → Tree
  | .leaf t => .leaf t
  | .group bracket opening content closing => .group bracket opening (joinedAll content) closing
  | .marked mark name arguments => .marked mark name arguments

/-- The trees with all annotations put together. -/
def joinedAll : List Tree → List Tree
  | [] => []
  | .leaf t :: ts => if t.isSymbol "@" then joinMark t (joinedAll ts) else .leaf t :: joinedAll ts
  | t :: ts => joined t :: joinedAll ts

end

/-- The trees of a source. -/
def ofSource (cs : List Char) : List Tree := joinedAll (ofTokens (Source.tokens cs))

end Tree
end FaultTolerance.Java.Source
