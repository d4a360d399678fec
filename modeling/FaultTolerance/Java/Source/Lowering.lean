import FaultTolerance.Java.Source.Setting
import FaultTolerance.Java.Source.Node

/-! From the syntax tree of a source to the types that it declares.

Two passes walk the tree, each in its own way. `Node.declaredNames` collects the names of all types, an
inner type before the one around it; they tell what a simple name in the source stands for.
`Node.toTypes` then reads the types with their members, an outer type before those in it. -/
namespace FaultTolerance.Java.Source
open Text

/-! ## The names that a source declares -/

namespace Node

/-- The name that a declaration of a package or an import gives. -/
def path? (n : Node) : Option String := (n.children.find? isPath).map compactText

def packageName? (root : Node) : Option String := (root.child? .packageDeclaration).bind path?

/-- The text in front of the names of top-level types. -/
def packagePrefix (root : Node) : String := root.packageName?.getD ""

/-- The qualified and the simple names of the types below a node that is called `outer`. -/
def namesBelow (outer : String) (separator : Char) (n : Node) : List (String × String) :=
  n.children.attach.flatMap fun ⟨child, _⟩ =>
    if child.isTypeDeclaration then
      match child.field? .name with
      | none => []
      | some name =>
        let qualified := qualify outer separator name.text
        let inner :=
          match _ : child.field? .body with
          | none => []
          | some body =>
            body.namesBelow qualified '$' ++
              match _ : body.child? .enumBodyDeclarations with
              | none => []
              | some members => members.namesBelow qualified '$'
        inner ++ [(qualified, name.text)]
    else []
termination_by sizeOf n
decreasing_by
  all_goals
    have hchild := sizeOf_lt_of_mem_children ‹child ∈ n.children›
    have hbody := sizeOf_lt_of_field? ‹child.field? .body = some body›
  · omega
  · have hmembers := sizeOf_lt_of_child? ‹body.child? .enumBodyDeclarations = some members›
    omega

/-- The qualified and the simple name of every type of a source. -/
def declaredNames (root : Node) : List (String × String) := root.namesBelow root.packagePrefix '.'

/-- Whether the node is an import that is not static. -/
def isTypeImport (n : Node) : Bool :=
  n.kind = .importDeclaration && (n.child? .staticWord).isNone

def isOnDemand (n : Node) : Bool := (n.child? .asterisk).isSome

end Node

/-- The scope of a source. Static imports give no names of types. -/
def NameScope.ofRoot (known : List String) (root : Node) : NameScope where
  package := root.packageName?
  declared := root.declaredNames.reverse.map Prod.swap
  imported :=
    ((((root.children.filter (·.isTypeImport)).filter (!·.isOnDemand)).filterMap Node.path?).map
      importedName).reverse
  onDemand := ((root.children.filter (·.isTypeImport)).filter (·.isOnDemand)).filterMap Node.path?
  known

namespace Setting

def nodeRange (s : Setting) (n : Node) : Range := s.table.range n.start n.stop

/-! ## Values and annotations -/

def lowerValue (s : Setting) (n : Node) : Value :=
  match n.kind with
  | .stringLiteral => .string (.ofList (unquoted n.text.toList))
  | .characterLiteral => .char (.ofList (withoutApostrophes n.text.toList))
  | .trueLiteral => .boolean true
  | .falseLiteral => .boolean false
  | .numberLiteral => .number n.text
  | .signedNumber => .number n.compactText
  | .classLiteral => .classRef (s.names.resolveType [] (.ofList (literalType n.text.toList)))
  | .fieldAccess =>
    match n.field? .object, n.field? .field with
    | some object, some name =>
      .constant (some (s.names.resolve object.compactText)) name.text
    | _, _ => .other n.text
  | .identifier => .constant none n.text
  | .elementValueArray =>
    .array (n.children.attach.filterMap fun ⟨item, _⟩ =>
      if item.kind = .comment then none else some (s.lowerValue item))
  | _ => .other n.text
termination_by sizeOf n
decreasing_by exact Node.sizeOf_lt_of_mem_children ‹_›

/-- The member that an argument gives. Without a key it is the one called `value`. -/
def lowerArgument? (s : Setting) (argument : Node) : Option Member :=
  match argument.kind with
  | .comment => none
  | .elementValuePair =>
    match argument.field? .key, argument.field? .value with
    | some key, some value => some ⟨key.text, s.lowerValue value, s.nodeRange value⟩
    | _, _ => none
  | _ => some ⟨"value", s.lowerValue argument, s.nodeRange argument⟩

def lowerAnnotation? (s : Setting) (n : Node) : Option Annotation :=
  (n.field? .name).map fun name =>
    { name := s.names.resolve name.compactText
      members := ((n.field? .arguments).elim [] Node.children).filterMap s.lowerArgument?
      range := s.nodeRange n }

def lowerAnnotations (s : Setting) (n : Node) : List Annotation :=
  (((n.child? .modifiers).elim [] Node.children).filter (·.isAnnotationUse)).filterMap
    s.lowerAnnotation?

end Setting

/-! ## Members -/

namespace Node

def typeVariables (n : Node) : List String :=
  (((n.field? .typeParameters).elim [] children).filter (·.kind = .typeParameter)).filterMap
    fun p => (p.children.find? fun n => n.kind = .typeIdentifier || n.kind = .identifier).map text

/-- What the type of a variable-arity parameter is taken for: the first child that is neither modifiers
nor the parameter's name. -/
def spreadType? (n : Node) : Option Node :=
  n.children.find? fun child =>
    !(child.kind = .modifiers || child.kind = .variableDeclarator || child.isAnnotationUse)

def parameterText? (n : Node) : Option String :=
  match n.kind with
  | .formalParameter =>
    (n.field? .type).map fun type =>
      type.text ++ .ofList (Naming.dimensions
        ((n.field? .dimensions).elim 0 fun dimensions => dimensions.text.toList.count '['))
  | .spreadParameter => n.spreadType?.map fun type => type.text ++ "[]"
  | _ => none

end Node

namespace Setting

def lowerMethod? (s : Setting) (typeVariables : List String) (n : Node) : Option Method :=
  (n.field? .name).map fun name =>
    let typeVariables := typeVariables ++ n.typeVariables
    { name := name.text
      returnType :=
        (n.field? .type).elim "void" fun type => s.names.resolveType typeVariables type.text
      parameterTypes :=
        (((n.field? .parameters).elim [] Node.children).filterMap Node.parameterText?).map
          (s.names.resolveType typeVariables)
      annotations := s.lowerAnnotations n
      range := s.nodeRange name }

/-- The fields that are declared together. They share their type and their annotations. -/
def lowerFields (s : Setting) (typeVariables : List String) (n : Node) : List Field :=
  (n.field? .type).elim [] fun type =>
    ((n.children.filter (·.kind = .variableDeclarator)).filterMap (·.field? .name)).map fun name =>
      { name := name.text
        type := s.names.resolveType typeVariables type.text
        annotations := s.lowerAnnotations n
        range := s.nodeRange name }

end Setting

/-! ## Types -/

namespace Node

def typeKind (n : Node) : Kind :=
  match n.kind with
  | .typeDeclaration kind => kind
  | _ => .classType

/-- What stands in the body of a type, the members of an enum type behind its constants. -/
def members (n : Node) : List Node :=
  match n.field? .body with
  | none => []
  | some body => body.children ++ (body.child? .enumBodyDeclarations).elim [] children

theorem sizeOf_lt_of_mem_members {n member : Node} (h : member ∈ n.members) :
    sizeOf member < sizeOf n := by
  unfold members at h
  split at h
  · cases h
  · rename_i body hbody
    refine Nat.lt_trans ?_ (sizeOf_lt_of_field? hbody)
    rcases List.mem_append.mp h with h | h
    · exact sizeOf_lt_of_mem_children h
    · cases hmembers : body.child? .enumBodyDeclarations with
      | none =>
        rw [hmembers] at h
        cases h
      | some members =>
        rw [hmembers] at h
        exact Nat.lt_trans (sizeOf_lt_of_mem_children h) (sizeOf_lt_of_child? hmembers)

end Node

/-- A type and the types nested in it, which see its type parameters. -/
def Setting.lowerType (s : Setting) (outer : String) (separator : Char)
    (typeVariables : List String) (n : Node) : List JavaType :=
  match n.field? .name with
  | none => []
  | some name =>
    let qualified := qualify outer separator name.text
    let typeVariables := typeVariables ++ n.typeVariables
    { name := qualified
      kind := n.typeKind
      origin := s.origin
      annotations := s.lowerAnnotations n
      methods := (n.members.filter (·.isMethod)).filterMap (s.lowerMethod? typeVariables)
      fields := (n.members.filter (·.isField)).flatMap (s.lowerFields typeVariables) } ::
      n.members.attach.flatMap fun ⟨member, _⟩ =>
        if member.isTypeDeclaration then s.lowerType qualified '$' typeVariables member else []
termination_by sizeOf n
decreasing_by exact Node.sizeOf_lt_of_mem_members ‹_›

/-- The types of a source whose text is `cs`. -/
def Node.toTypes (root : Node) (cs : List Char) (origin : Origin) (known : List String) :
    List JavaType :=
  let s : Setting := ⟨.ofRoot known root, .ofText cs, origin⟩
  (root.children.filter (·.isTypeDeclaration)).flatMap (s.lowerType root.packagePrefix '.' [])

end FaultTolerance.Java.Source
