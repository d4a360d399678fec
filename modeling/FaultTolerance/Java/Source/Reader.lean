import FaultTolerance.Java.Source.Node
import FaultTolerance.Java.Source.Syntax

/-! The syntax tree that some trees of brackets amount to. A node keeps the children that someone asks
for; code has none. A comment is a node of its own in front of an element of a list, and where it
separates the modifiers of a variable-arity parameter from the type. -/
namespace FaultTolerance.Java.Source

/-! ## Nodes over tokens -/

/-- The node that covers some tokens. -/
def Node.ofTokens (kind : NodeKind) (role : Option Role) (ts : List Token)
    (children : List Node) : Node :=
  .mk kind role (Token.textOf ts) ((ts.head?.map Token.start).getD 0) (stopOf ts) children

/-- A name, dotted or not. -/
def pathNode (role : Option Role) (ts : List Token) : Node :=
  .ofTokens (if ts.length ≤ 1 then .identifier else .scopedIdentifier) role ts []

def nameNode (name : Token) : Node := .ofTokens .identifier (some .name) [name] []

/-- The comments among lexemes that begin at an offset. -/
def commentNodes (start : Nat) : List Lexeme → List Node
  | [] => []
  | l :: ls =>
    let stop := start + l.text.utf8ByteSize
    if l.kind = .comment then .mk .comment none l.text start stop [] :: commentNodes stop ls
    else commentNodes stop ls

def commentsBefore (t : Token) : List Node :=
  commentNodes (t.start - (String.join (t.before.map (·.text))).utf8ByteSize) t.before

def commentsBeforeAll (ts : List Token) : List Node := ts.head?.elim [] commentsBefore

/-! ## Values -/

def Form.kind : Form → NodeKind
  | .string _ => .stringLiteral
  | .char _ => .characterLiteral
  | .number _ => .numberLiteral
  | .signed => .signedNumber
  | .boolean true => .trueLiteral
  | .boolean false => .falseLiteral
  | .name _ => .identifier
  | .classLiteral => .classLiteral
  | .field .. => .fieldAccess
  | .other => .other

/-- The children of an expression: what a field is taken from, and its name. -/
def Form.children : Form → List Node
  | .field owner last =>
    [.ofTokens .other (some .object) (Tree.tokensOf owner) [],
      .ofTokens .identifier (some .field) [last] []]
  | _ => []

namespace ValueSyntax

def tokens : ValueSyntax → List Token
  | array group _ => group.tokens
  | expression ts => Tree.tokensOf ts

mutual

def node (role : Option Role) : ValueSyntax → Node
  | array group items => .ofTokens .elementValueArray role group.tokens (itemNodes items)
  | expression ts =>
    .ofTokens (formOf ts).kind role (Tree.tokensOf ts) (formOf ts).children

/-- The values of an array and the comments in front of them. -/
def itemNodes : List ValueSyntax → List Node
  | [] => []
  | v :: vs => commentsBeforeAll v.tokens ++ node none v :: itemNodes vs

end

end ValueSyntax

/-! ## Annotations -/

/-- An argument, given as the trees between two commas. -/
def argumentNode (part : List Tree) : Node :=
  match argumentOf part with
  | ⟨none, value⟩ => value.node none
  | ⟨some key, value⟩ =>
    .ofTokens .elementValuePair none (Tree.tokensOf part)
      [.ofTokens .identifier (some .key) [key] [], value.node (some .value)]

/-- The arguments of an annotation, which has none without brackets. -/
def argumentNodes : Option Tree → List Node
  | some (.group bracket opening content closing) =>
    let parts := (listParts content).filter (!·.isEmpty)
    [.ofTokens .annotationArguments (some .arguments) (Tree.group bracket opening content closing).tokens
      (parts.flatMap fun part => commentsBeforeAll (Tree.tokensOf part) ++ [argumentNode part])]
  | _ => []

def annotationNode? : Tree → Option Node
  | .marked mark name arguments =>
    some (.ofTokens (if arguments.isSome then .annotationUse else .markerUse) none
      (Tree.marked mark name arguments).tokens
      (pathNode (some .name) name :: argumentNodes arguments))
  | _ => none

/-- The modifiers of a declaration, when some trees in front of it are modifiers. -/
def modifierNodes (front : List Tree) : List Node :=
  if front.isEmpty then []
  else [.ofTokens .modifiers none (Tree.tokensOf front) (front.filterMap annotationNode?)]

def modifiersOf (declaration : List Tree) : List Tree :=
  declaration.take (declaration.length - (modifiers declaration).2.length)

/-- The node of a declaration, its modifiers in front of the other children. -/
def modifiedNode (kind : NodeKind) (declaration : List Tree) (children : List Node) : Node :=
  .ofTokens kind none (Tree.tokensOf declaration)
    (modifierNodes (modifiersOf declaration) ++ children)

/-- The node of trees that nobody looks into. -/
def otherNode (ts : List Tree) : Node := .ofTokens .other none (Tree.tokensOf ts) []

/-! ## Members -/

def typeNode (role : Option Role) (type : List Token) : Node := .ofTokens .type role type []

def typeParameterNode (part : List Tree) : Node :=
  .ofTokens .typeParameter none (Tree.tokensOf part)
    ((part.findSome? Tree.word?).toList.map fun name => .ofTokens .typeIdentifier none [name] [])

def typeParameterNodes : List Tree → List Node
  | .leaf t :: ts =>
    if t.isSymbol "<" then
      let inside := (splitAngles 0 ts).1
      [.ofTokens .typeParameters (some .typeParameters) (Tree.tokensOf inside)
        ((typedParts inside).map typeParameterNode)]
    else []
  | _ => []

def declaratorNode (name : Token) : Node :=
  .ofTokens .variableDeclarator none [name] [nameNode name]

def dimensionNodes (ts : List Tree) : List Node :=
  if ts.isEmpty then [] else [.ofTokens .dimensions (some .dimensions) (Tree.tokensOf ts) []]

/-- A parameter with a type, a name and what follows the name. -/
def formalParameterNode (part : List Tree) (type : List Token) (name : Tree) (after : List Tree) :
    Node :=
  modifiedNode .formalParameter part
    (typeNode (some .type) type :: .ofTokens .identifier (some .name) name.tokens [] ::
      dimensionNodes after)

/-- The comments between the modifiers of a parameter and its type, which begins with `w`. -/
def commentsAfterModifiers (part : List Tree) (w : Token) : List Node :=
  if (modifiers part).2.length < part.length then commentsBefore w else []

/-- A parameter with dots between its type and its name. -/
def spreadParameterNode (part : List Tree) (w : Token) (type : List Token) (after : List Tree) : Node :=
  modifiedNode .spreadParameter part
    (commentsAfterModifiers part w ++ typeNode none (w :: type) ::
      (after.head?.bind Tree.word?).toList.map declaratorNode)

def parameterNode (part : List Tree) : Node :=
  match typeOf (modifiers part).2 with
  | ([], _) => otherNode part
  | (w :: type, rest) =>
    match skipAnnotations rest with
    | t :: after =>
      if t.isSymbol "..." then spreadParameterNode part w type after
      -- A receiver, which is called `this`, is no parameter of the method.
      else if t.word?.isSome && !(t :: after).any (·.isKeyword "this") then
        formalParameterNode part (w :: type) t after
      else otherNode part
    | [] => otherNode part

/-- The type, the name and the parameters of a method. -/
def methodHead (type : List Token) (name opening : Token) (content : List Tree)
    (closing : Option Token) : List Node :=
  [typeNode (some .type) type, nameNode name,
    .ofTokens .formalParameters (some .parameters) (Tree.group .round opening content closing).tokens
      ((typedParts content).map parameterNode)]

/-- A method of a type of the kind `outer`, whose modifiers stand in front of `ts` and its type
parameters in front of `head`. -/
def methodNode (outer : Kind) (declaration ts : List Tree) (head : List Node) : Node :=
  modifiedNode
    (if outer = .annotationType then .annotationElementDeclaration else .methodDeclaration)
    declaration (typeParameterNodes ts ++ head)

def fieldNode (outer : Kind) (declaration : List Tree) (type : List Token) (names : List Token) : Node :=
  modifiedNode
    (if outer = .interfaceType || outer = .annotationType then .constantDeclaration
      else .fieldDeclaration)
    declaration (typeNode (some .type) type :: names.map declaratorNode)

/-- What a declaration that is no type declares, `ts` standing behind its modifiers. -/
def memberNode (outer : Kind) (declaration ts : List Tree) : Node :=
  match typeOf (skipAnnotations (typeParametersOf ts).2) with
  | ([], _) => otherNode declaration
  | (type, .leaf name :: .group .round opening content closing :: _) =>
    if name.isWord then
      methodNode outer declaration ts (methodHead type name opening content closing)
    else otherNode declaration
  | (type, .leaf name :: rest) =>
    if name.isWord then fieldNode outer declaration type (name :: laterNames rest)
    else otherNode declaration
  -- The name of a constructor reads as a type, and no other name follows it.
  | _ => otherNode declaration

/-! ## Declarations -/

/-- The constants of an enum type, with their arguments and bodies. -/
def constantNodes (content : List Tree) : List Node :=
  (listParts (content.takeWhile (!·.isSymbol ";"))).map fun part =>
    .ofTokens .enumConstant none (Tree.tokensOf part) []

/-- The body of a type, `read` giving the nodes of the declarations in it. The members of an enum type
stand in a node of their own, which begins at the first semicolon. -/
def bodyNode (read : List (List Tree) → List Node) (kind : Kind) (content : List Tree) : Node :=
  .ofTokens .body (some .body) (Tree.tokensOf content) <|
    match kind with
    | .enumType =>
      constantNodes content ++
        match content.dropWhile (!·.isSymbol ";") with
        | [] => []
        | semicolon :: members =>
          [.ofTokens .enumBodyDeclarations none (Tree.tokensOf (semicolon :: members))
            (read (splitDeclarations false [] members))]
    | _ => read (splitDeclarations false [] content)

/-- A type whose name `rest` follows. -/
def typeDeclarationNode (declaration : List Tree) (kind : Kind) (name : Token) (rest : List Tree)
    (body : Node) : Node :=
  modifiedNode (.typeDeclaration kind) declaration
    ([nameNode name] ++ (typeParameterNodes rest ++ [body]))

/-- The nodes of the declarations in a type of the kind `outer`. The first argument bounds the nesting of
types. -/
def declarationNodes : Nat → Kind → List (List Tree) → List Node
  | 0, _, _ => []
  | n + 1, outer, declarations =>
    declarations.map fun declaration =>
      match typeHead? (modifiers declaration).2 with
      | some (kind, name, rest) =>
        match bodyOf? rest with
        | some content =>
          typeDeclarationNode declaration kind name rest
            (bodyNode (declarationNodes n kind) kind content)
        | none => otherNode declaration
      | none => memberNode outer declaration (modifiers declaration).2

/-! ## Compilation units -/

def packageNode? (declaration : List Tree) : Option Node :=
  (packageOf? declaration).map fun name =>
    .ofTokens .packageDeclaration none (Tree.tokensOf declaration)
      ((declaration.takeWhile Tree.isAnnotation).filterMap annotationNode? ++ [pathNode none name])

def wordNodes (isThere : Bool) (kind : NodeKind) (word : Option Token) : List Node :=
  if isThere then [.ofTokens kind none word.toList []] else []

def importNode? (declaration : List Tree) : Option Node :=
  (importOf? declaration).map fun i =>
    let words := Tree.tokensOf declaration
    .ofTokens .importDeclaration none words
      (wordNodes i.isStatic .staticWord (words.find? (·.isKeyword "static")) ++
        pathNode none i.path ::
          wordNodes i.onDemand .asterisk (words.find? (·.isSymbol "*")))

/-- The nodes of a declaration in a unit, `read` giving those of a type. -/
def unitNodes (read : List (List Tree) → List Node) (declaration : List Tree) : List Node :=
  match (packageNode? declaration).or (importNode? declaration) with
  | some n => [n]
  | none => read [declaration]

/-- The root of a source's syntax tree. Types nest no deeper than there are tokens. -/
def Node.ofTrees (ts : List Tree) : Node :=
  .ofTokens .program none (Tree.tokensOf ts)
    ((splitDeclarations false [] ts).flatMap
      (unitNodes (declarationNodes (Tree.tokensOf ts).length .classType)))

def Node.ofSource (cs : List Char) : Node := .ofTrees (Tree.ofSource cs)

end FaultTolerance.Java.Source
