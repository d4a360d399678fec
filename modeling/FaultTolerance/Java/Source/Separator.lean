import FaultTolerance.Java.Source.Tree

/-! Commas that separate the parts of a list.

Round, square and curly brackets are trees already, but angle brackets are not: they may hold type
arguments or compare two numbers. A comma between type arguments separates nothing. -/
namespace FaultTolerance.Java.Source

/-- Splits trees after an opening angle bracket at its closing one. -/
def splitAngles : Nat → List Tree → List Tree × List Tree
  | _, [] => ([], [])
  | depth, t :: ts =>
    if t.isSymbol ">" then
      match depth with
      | 0 => ([], ts)
      | depth + 1 =>
        let (a, b) := splitAngles depth ts
        (t :: a, b)
    else
      let (a, b) := splitAngles (if t.isSymbol "<" then depth + 1 else depth) ts
      (t :: a, b)

/-- Whether a tree may be part of type arguments. -/
def isTypePart (t : Tree) : Bool :=
  t.word?.isSome || t.isDimension || t.isAnnotation ||
    [".", ",", "?", "&", "<", ">"].any fun s => t.isSymbol s

/-- Whether the trees after an opening angle bracket close it, and are parts of types up to there. -/
def closeTypeArguments (ts : List Tree) : Bool :=
  let inside := (splitAngles 0 ts).1
  inside.all isTypePart && inside.length < ts.length

/-- Whether the trees after an opening angle bracket are type arguments, as seen from what
follows the closing one. -/
def areTypeArguments (ts : List Tree) : Bool :=
  closeTypeArguments ts &&
    match (splitAngles 0 ts).2 with
    | t :: _ => t.isSymbol "." || t.isSymbol "::" || t.isDimension
    | [] => false

/-- What has been seen of a list. -/
structure ListState where
  /-- The number of open angle brackets around type arguments. -/
  depth : Nat := 0
  /-- Whether the last trees name the type of a new object, with type arguments or without. -/
  created : Bool := false
  /-- Whether the last trees name the type of a test. A test may be compared as well. -/
  tested : Bool := false
  /-- Whether the last tree asks for a member, which may have type arguments in front. -/
  afterDot : Bool := false

namespace ListState

/-- Whether a tree separates two parts. -/
def separates (s : ListState) (t : Tree) : Bool := s.depth = 0 && t.isSymbol ","

/-- Whether an opening angle bracket, which is followed by `rest`, begins type arguments. -/
def opensTypeArguments (s : ListState) (rest : List Tree) : Bool :=
  s.created || s.afterDot || (s.tested && closeTypeArguments rest) || areTypeArguments rest

/-- The state after a tree, which is followed by `rest`. -/
def next (s : ListState) (t : Tree) (rest : Unit → List Tree) : ListState :=
  if s.depth ≠ 0 then
    if t.isSymbol "<" then { s with depth := s.depth + 1 }
    else if t.isSymbol ">" then { s with depth := s.depth - 1 }
    else s
  else if t.isSymbol "<" then
    if s.opensTypeArguments (rest ()) then { s with depth := 1, afterDot := false } else {}
  else
    let inName := t.word?.isSome || t.isAnnotation || t.isSymbol "."
    { created := t.isKeyword "new" || (s.created && inName)
      tested := t.isKeyword "instanceof" || (s.tested && inName)
      afterDot := t.isSymbol "." || t.isSymbol "::" }

end ListState

/-- Splits the elements of a list at the commas, `part` holding the current part from its end.
Each element stands for a tree. -/
def splitParts {α : Type} (tree : α → Tree) (s : ListState) (part : List α) :
    List α → List (List α)
  | [] => if part.isEmpty then [] else [part.reverse]
  | x :: xs =>
    if s.separates (tree x) then part.reverse :: splitParts tree {} [] xs
    else splitParts tree (s.next (tree x) fun _ => xs.map tree) (x :: part) xs

/-- The parts of a list of expressions. -/
def listParts (ts : List Tree) : List (List Tree) := splitParts id {} [] ts

/-- The parts of a list in which every angle bracket belongs to a type, `part` holding the
current part from its end. -/
def splitTyped (depth : Nat) (part : List Tree) : List Tree → List (List Tree)
  | [] => if part.isEmpty then [] else [part.reverse]
  | t :: ts =>
    if depth = 0 && t.isSymbol "," then part.reverse :: splitTyped 0 [] ts
    else
      let depth :=
        if t.isSymbol "<" then depth + 1 else if t.isSymbol ">" then depth - 1 else depth
      splitTyped depth (t :: part) ts

/-- The parts of a list of parameters or type parameters. -/
def typedParts (ts : List Tree) : List (List Tree) := splitTyped 0 [] ts

end FaultTolerance.Java.Source
