import FaultTolerance.Java.Source.Expression
import FaultTolerance.Java.Type

/-! The parts of a source's declarations.

A body is split into declarations at semicolons and at curly brackets that close one. The trees of a
declaration begin with modifiers; behind them stand the head of a type, or the type and the name of a
method or a field. Each function gets trees and splits off the part it is about. -/
namespace FaultTolerance.Java.Source

/-! ## Syntax -/

/-- The value of an annotation member. -/
inductive ValueSyntax where
  | array (group : Tree) (items : List ValueSyntax)
  | expression (trees : List Tree)
  deriving Repr, Inhabited

/-- An argument of an annotation, with its name if one is written. -/
structure ArgumentSyntax where
  key : Option Token
  value : ValueSyntax
  deriving Repr, Inhabited

structure AnnotationSyntax where
  mark : Token
  name : List Token
  arguments : List ArgumentSyntax
  /-- The offset after its last byte. -/
  stop : Nat
  deriving Repr, Inhabited

structure ImportSyntax where
  path : List Token
  isStatic : Bool
  onDemand : Bool
  deriving Repr, Inhabited

/-! ## Annotations -/

mutual

/-- The value of a pair of curly brackets. -/
def arrayOf? : Tree → Option ValueSyntax
  | .group .curly opening content closing =>
    some (.array (.group .curly opening content closing)
      (((splitParts Prod.fst {} [] (withArrays content)).filter (!·.isEmpty)).map valueOfPart))
  | _ => none

/-- Trees, each with the array it may be. -/
def withArrays : List Tree → List (Tree × Option ValueSyntax)
  | [] => []
  | t :: ts => (t, arrayOf? t) :: withArrays ts

/-- The value of a part of a list. -/
def valueOfPart : List (Tree × Option ValueSyntax) → ValueSyntax
  | [(_, some array)] => array
  | part => .expression (part.map Prod.fst)

end

/-- The value that some trees stand for. -/
def valueOf (ts : List Tree) : ValueSyntax := valueOfPart (withArrays ts)

/-- The argument that some trees stand for. -/
def argumentOf : List Tree → ArgumentSyntax
  | .leaf key :: eq :: ts =>
    if key.isWord && eq.isSymbol "=" then ⟨some key, valueOf ts⟩
    else ⟨none, valueOf (.leaf key :: eq :: ts)⟩
  | ts => ⟨none, valueOf ts⟩

def argumentsOf : Option Tree → List ArgumentSyntax
  | some (.group _ _ content _) => ((listParts content).filter (!·.isEmpty)).map argumentOf
  | _ => []

/-- The offset after the last of some tokens. -/
def stopOf (ts : List Token) : Nat := (ts.getLast?.map Token.stop).getD 0

/-- The annotation that a tree is. -/
def annotationOf? : Tree → Option AnnotationSyntax
  | .marked mark name arguments =>
    some ⟨mark, name, argumentsOf arguments, stopOf (Tree.marked mark name arguments).tokens⟩
  | _ => none

/-! ## Modifiers -/

def modifierWords : List String :=
  ["public", "protected", "private", "abstract", "static", "final", "strictfp", "default",
    "synchronized", "native", "transient", "volatile", "sealed"]

/-- Splits off modifiers and keeps the annotations among them. -/
def modifiers : List Tree → List AnnotationSyntax × List Tree
  | .leaf a :: .leaf b :: .leaf c :: ts =>
    if a.isKeyword "non" && b.isSymbol "-" && c.isKeyword "sealed" then modifiers ts
    else if modifierWords.any fun w => a.isKeyword w then modifiers (.leaf b :: .leaf c :: ts)
    else ([], .leaf a :: .leaf b :: .leaf c :: ts)
  | .leaf a :: ts =>
    if modifierWords.any fun w => a.isKeyword w then modifiers ts else ([], .leaf a :: ts)
  | .marked mark name arguments :: ts =>
    let (as, rest) := modifiers ts
    ((annotationOf? (.marked mark name arguments)).toList ++ as, rest)
  | ts => ([], ts)

def skipAnnotations (ts : List Tree) : List Tree := ts.dropWhile Tree.isAnnotation

/-! ## Types -/

/-- Where the text of a type stands. -/
inductive TypeState where
  /-- A name comes next. -/
  | name
  | afterName
  /-- Inside type arguments. -/
  | angles (depth : Nat)
  | dimensions
  deriving DecidableEq, Repr

/-- The state after one more tree of a type, which is followed by `rest`. Nothing when the tree
belongs to the type no more. -/
def TypeState.next (s : TypeState) (t : Tree) (rest : List Tree) : Option TypeState :=
  let continued :=
    if t.isDimension then some .dimensions
    else if t.isAnnotation && (skipAnnotations rest).head?.any Tree.isDimension then
      some .dimensions
    else none
  match s with
  | .name =>
    if t.word?.isSome then some .afterName else if t.isAnnotation then some .name else none
  | .afterName =>
    if t.isSymbol "<" then some (.angles 0)
    else if t.isSymbol "." then some .name
    else continued
  | .angles depth =>
    if t.isSymbol "<" then some (.angles (depth + 1))
    else if t.isSymbol ">" then
      match depth with
      | 0 => some .afterName
      | depth + 1 => some (.angles depth)
    else some (.angles depth)
  | .dimensions => continued

/-- Splits off the rest of a type. -/
def typeRest (s : TypeState) : List Tree → List Token × List Tree
  | [] => ([], [])
  | t :: ts =>
    match s.next t ts with
    | some s =>
      let (type, rest) := typeRest s ts
      (t.tokens ++ type, rest)
    | none => ([], t :: ts)

/-- Splits off a type; its tokens are empty when there is none. -/
def typeOf : List Tree → List Token × List Tree
  | .leaf w :: ts =>
    if w.isWord then
      let (type, rest) := typeRest .afterName ts
      (w :: type, rest)
    else ([], .leaf w :: ts)
  | ts => ([], ts)

/-- Splits off type parameters: their names. -/
def typeParametersOf : List Tree → List String × List Tree
  | .leaf t :: ts =>
    if t.isSymbol "<" then
      let (inside, rest) := splitAngles 0 ts
      ((typedParts inside).filterMap fun p => (p.findSome? Tree.word?).map (·.text), rest)
    else ([], .leaf t :: ts)
  | ts => ([], ts)

/-! ## Members -/

/-- Whether the trees after a comma begin a declarator: behind words, annotations, dimensions and
further commas comes a value or the end. Type arguments go on with something else. -/
def startsDeclarator : List Tree → Bool
  | [] => true
  | t :: ts =>
    t.isSymbol "=" ||
      (t.word?.isSome || t.isDimension || t.isAnnotation || t.isSymbol ",") && startsDeclarator ts

/-- The names of the declarators after the first one, which some trees go on with. -/
def laterNames : List Tree → List Token
  | [] => []
  | t :: ts =>
    if t.isSymbol "," && startsDeclarator ts then (ts.head?.bind Tree.word?).toList ++ laterNames ts
    else laterNames ts

/-! ## Declarations -/

/-- Whether some trees, the last one first, already hold the parameters of a method. -/
def hasParameters (part : List Tree) : Bool := part.any (Tree.isGroup .round)

/-- Splits the content of a body into declarations; `part` holds the current one from its end.
After `inValue` a curly bracket ends no declaration. -/
def splitDeclarations (inValue : Bool) (part : List Tree) : List Tree → List (List Tree)
  | [] => if part.isEmpty then [] else [part.reverse]
  | t :: ts =>
    if t.isSymbol ";" then part.reverse :: splitDeclarations false [] ts
    else if t.isGroup .curly && !inValue then (t :: part).reverse :: splitDeclarations false [] ts
    else
      let inValue :=
        inValue || t.isSymbol "=" || (t.isKeyword "default" && hasParameters part)
      splitDeclarations inValue (t :: part) ts

/-- The kind, the name and what follows the name, when the trees after some modifiers declare a
type. -/
def typeHead? : List Tree → Option (Kind × Token × List Tree)
  | .leaf a :: .leaf b :: ts =>
    let named (kind : Kind) : Option (Kind × Token × List Tree) :=
      if b.isWord then some (kind, b, ts) else none
    if a.isKeyword "class" then named .classType
    else if a.isKeyword "interface" then named .interfaceType
    else if a.isKeyword "enum" then named .enumType
    else if a.isKeyword "record" then
      match ts with
      | t :: _ => if t.isGroup .round || t.isSymbol "<" then named .recordType else none
      | [] => none
    else if a.isSymbol "@" && b.isKeyword "interface" then
      match ts with
      | .leaf c :: ts => if c.isWord then some (.annotationType, c, ts) else none
      | _ => none
    else none
  | _ => none

/-- The content of the body among the trees after a type's name. -/
def bodyOf? (ts : List Tree) : Option (List Tree) :=
  ts.findSome? fun
    | .group .curly _ content _ => some content
    | _ => none

/-! ## Compilation units -/

/-- The name of the package that a declaration names. -/
def packageOf? (declaration : List Tree) : Option (List Token) :=
  match skipAnnotations declaration with
  | .leaf a :: ts =>
    if a.isKeyword "package" then
      match Tree.dotted ts with
      | ([], _) => none
      | (name, _) => some name
    else none
  | _ => none

/-- The import that a declaration is. -/
def importOf? : List Tree → Option ImportSyntax
  | .leaf a :: ts =>
    if a.isKeyword "import" then
      let isStatic := ts.head?.any (·.isKeyword "static")
      match Tree.dotted (if isStatic then ts.drop 1 else ts) with
      | ([], _) => none
      | (path, rest) => some ⟨path, isStatic, rest.any (·.isSymbol "*")⟩
    else none
  | _ => none

end FaultTolerance.Java.Source
