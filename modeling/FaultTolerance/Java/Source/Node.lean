import FaultTolerance.Java.Type
import FaultTolerance.Text.Affix

/-! The syntax tree of a source. A node has a kind, its place in the node around it where that place has
a name, the text that it covers, and its children in the order of the source. -/
namespace FaultTolerance.Java.Source
open Text

/-! ## Nodes -/

/-- What a node stands for. -/
inductive NodeKind where
  | program
  -- Declarations
  | packageDeclaration | importDeclaration | staticWord | asterisk
  | typeDeclaration (kind : Kind)
  | body | enumConstant | enumBodyDeclarations
  | methodDeclaration | annotationElementDeclaration
  | fieldDeclaration | constantDeclaration | variableDeclarator
  | modifiers | annotationUse | markerUse | annotationArguments | elementValuePair
  | typeParameters | typeParameter
  | formalParameters | formalParameter | spreadParameter | dimensions
  -- Names, types and values
  | identifier | scopedIdentifier | typeIdentifier | type
  | stringLiteral | characterLiteral | trueLiteral | falseLiteral | numberLiteral
  /-- A unary expression that is a sign right in front of a digit. -/
  | signedNumber
  | classLiteral | fieldAccess | elementValueArray
  | comment
  | other
  deriving DecidableEq, Repr, Inhabited

/-- The place of a node in the one around it. -/
inductive Role where
  | name | body | type | typeParameters | parameters | dimensions | arguments | key | value
  | object | field
  deriving DecidableEq, Repr, Inhabited

inductive Node where
  | mk (kind : NodeKind) (role : Option Role) (text : String) (start stop : Nat)
      (children : List Node)
  deriving Repr, Inhabited

namespace Node

def kind : Node → NodeKind
  | mk kind .. => kind

def role : Node → Option Role
  | mk _ role .. => role

/-- The text that the node covers. -/
def text : Node → String
  | mk _ _ text .. => text

/-- The offset of its first byte. -/
def start : Node → Nat
  | mk _ _ _ start .. => start

/-- The offset after its last byte. -/
def stop : Node → Nat
  | mk _ _ _ _ stop _ => stop

def children : Node → List Node
  | mk _ _ _ _ _ children => children

/-- The first child in a place. -/
def field? (n : Node) (role : Role) : Option Node := n.children.find? (·.role = some role)

/-- The first child of a kind. -/
def child? (n : Node) (kind : NodeKind) : Option Node := n.children.find? (·.kind = kind)

/-- The text without white space. -/
def compactText (n : Node) : String := .ofList (compact n.text.toList)

/-! ## Tests -/

def isTypeDeclaration (n : Node) : Bool :=
  match n.kind with
  | .typeDeclaration _ => true
  | _ => false

def isMethod (n : Node) : Bool :=
  n.kind = .methodDeclaration || n.kind = .annotationElementDeclaration

def isField (n : Node) : Bool := n.kind = .fieldDeclaration || n.kind = .constantDeclaration

def isAnnotationUse (n : Node) : Bool := n.kind = .annotationUse || n.kind = .markerUse

/-- Whether the node is a name, dotted or not. -/
def isPath (n : Node) : Bool := n.kind = .scopedIdentifier || n.kind = .identifier

/-! ## Walking down -/

theorem sizeOf_lt_of_mem_children {n child : Node} (h : child ∈ n.children) :
    sizeOf child < sizeOf n := by
  cases n with
  | mk kind role text start stop children =>
    have hlt : sizeOf child < sizeOf children := List.sizeOf_lt_of_mem h
    simp only [mk.sizeOf_spec]
    omega

theorem sizeOf_lt_of_field? {n child : Node} {role : Role} (h : n.field? role = some child) :
    sizeOf child < sizeOf n :=
  sizeOf_lt_of_mem_children (List.mem_of_find?_eq_some h)

theorem sizeOf_lt_of_child? {n child : Node} {kind : NodeKind} (h : n.child? kind = some child) :
    sizeOf child < sizeOf n :=
  sizeOf_lt_of_mem_children (List.mem_of_find?_eq_some h)

end Node
end FaultTolerance.Java.Source
