import FaultTolerance.Java.Naming
import FaultTolerance.Java.Source.Separator

/-! The forms of an expression that matter in an annotation: literals, names, class literals and
fields. Everything else is one more form. -/
namespace FaultTolerance.Java.Source

inductive Form where
  | string (token : Token)
  | char (token : Token)
  | number (token : Token)
  /-- A plus or minus, and right after it a number or what begins with one. -/
  | signed
  | boolean (value : Bool)
  | name (token : Token)
  /-- A type, a dot and the word `class`. -/
  | classLiteral
  /-- A field of what the trees stand for. -/
  | field (owner : List Tree) (name : Token)
  | other
  deriving Repr, Inhabited

/-- The words for types that are no classes. -/
def builtinTypes : List String := "void" :: Naming.primitives

/-- The words that have a meaning of their own in an expression. Any other word is a name there,
even one that is reserved elsewhere. -/
def reservedWords : List String :=
  builtinTypes ++ ["class", "false", "new", "null", "super", "switch", "this", "true"]

def Token.isIdentifier (t : Token) : Bool := t.isWord && !reservedWords.contains t.text

/-! ## Chains

A chain starts with a literal, a name, a parenthesis, a type or a new object and goes on with
members, calls, indices and type arguments. Operators make no chain. -/

/-- Where a chain stands. -/
inductive ChainState where
  | start
  /-- After a name, which may turn out to be a type or a method. -/
  | name
  | type
  | value
  | dot
  /-- After `new`, up to the arguments or the size of an array. -/
  | creation
  /-- After the arguments of a new object, which may have a body. -/
  | created
  /-- After `::`. -/
  | reference
  /-- Inside type arguments, and where the chain stands after them. -/
  | angles (depth : Nat) (after : ChainState)
  /-- After type arguments. -/
  | generic
  deriving Repr, Inhabited

namespace ChainState

def afterStart (t : Tree) : Option ChainState :=
  match t with
  | .leaf t =>
    match t.kind with
    | .string => some .value
    | .char => some .value
    | .number => some .value
    | .word =>
      if t.text = "new" then some .creation
      else if builtinTypes.contains t.text then some .type
      else if ["true", "false", "null"].contains t.text then some .value
      else if t.isIdentifier || t.text = "this" || t.text = "super" then some .name
      else none
    | _ => none
  | .group .round .. => some .value
  | _ => none

/-- What may follow a value, a type or a name alike. -/
def afterOperand (t : Tree) : Option ChainState :=
  if t.isSymbol "." then some .dot
  else if t.isSymbol "::" then some .reference
  else none

def next : ChainState → Tree → Option ChainState
  | .start, t => afterStart t
  | .name, t =>
    if t.isGroup .round then some .value
    else if t.isDimension then some .type
    else if t.isGroup .square then some .value
    else if t.isSymbol "<" then some (.angles 0 .generic)
    else afterOperand t
  | .type, t =>
    if t.isDimension || t.isAnnotation then some .type
    else if t.isSymbol "<" then some (.angles 0 .generic)
    else afterOperand t
  | .value, t => if t.isGroup .square then some .value else afterOperand t
  | .dot, t =>
    if t.isKeyword "new" then some .creation
    else if t.isSymbol "<" then some (.angles 0 .dot)
    else if t.isAnnotation then some .dot
    else if t.word?.isSome then some .name
    else none
  | .creation, t =>
    if t.isGroup .round then some .created
    else if t.isGroup .curly then some .value
    else if t.isSymbol "<" then some (.angles 0 .creation)
    else if t.word?.isSome || t.isAnnotation || t.isSymbol "." || t.isGroup .square then
      some .creation
    else none
  | .created, t =>
    if t.isGroup .curly || t.isGroup .square then some .value else afterOperand t
  | .reference, t =>
    if t.isSymbol "<" then some (.angles 0 .reference)
    else if t.word?.isSome then some .value
    else none
  | .angles depth after, t =>
    if t.isSymbol "<" then some (.angles (depth + 1) after)
    else if t.isSymbol ">" then
      match depth with
      | 0 => some after
      | depth + 1 => some (.angles depth after)
    else some (.angles depth after)
  | .generic, t => if t.isDimension then some .type else afterOperand t

/-- Whether a chain may end here. -/
def mayEnd : ChainState → Bool
  | .name => true
  | .value => true
  | .creation => true
  | .created => true
  | _ => false

/-- Whether the trees go on with a chain to its end. -/
def accepts (s : ChainState) : List Tree → Bool
  | [] => s.mayEnd
  | t :: ts =>
    match s.next t with
    | some s => accepts s ts
    | none => false

end ChainState

def isChain (ts : List Tree) : Bool := ChainState.start.accepts ts

/-! ## Forms -/

/-- The form of a single tree. -/
def formOfTree : Tree → Form
  | .leaf t =>
    match t.kind with
    | .string => .string t
    | .char => .char t
    | .number => .number t
    | .word =>
      if t.text = "true" then .boolean true
      else if t.text = "false" then .boolean false
      else if t.isIdentifier then .name t
      else .other
    | _ => .other
  | _ => .other

/-- Whether only white space stands in front of a token. -/
def Token.followsBlank (t : Token) : Bool := t.before.all (·.kind == .blank)

/-- Whether a sign and what follows it count as a number. A comment may not stand between the two. -/
def isSigned : List Tree → Bool
  | .leaf sign :: .leaf t :: ts =>
    (sign.isSymbol "-" || sign.isSymbol "+") && t.kind == .number && t.followsBlank &&
      t.text.toList.head?.any Char.isDigit && isChain (.leaf t :: ts)
  | _ => false

/-- The owner of a field, without the `super` that may stand between the two. -/
def ownerOf (ts : List Tree) : List Tree :=
  match ts.reverse with
  | t :: dot :: rest =>
    if t.isKeyword "super" && dot.isSymbol "." then rest.reverse else ts
  | _ => ts

/-- The form of a chain of several trees. -/
def formOfChain (ts : List Tree) : Form :=
  match ts.reverse with
  | .leaf last :: dot :: owner =>
    if !dot.isSymbol "." then .other
    else if last.isKeyword "class" then .classLiteral
    else if last.isIdentifier || last.isKeyword "this" then .field (ownerOf owner.reverse) last
    else .other
  | _ => .other

def formOf : List Tree → Form
  | [t] => formOfTree t
  | ts => if isSigned ts then .signed else if isChain ts then formOfChain ts else .other

end FaultTolerance.Java.Source
