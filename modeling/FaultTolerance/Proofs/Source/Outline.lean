import FaultTolerance.Java.Source.Setting
import FaultTolerance.Java.Source.Syntax

/-! The outline of a source: its declarations as records, read off the trees of brackets without the
syntax tree between the two. The theorems about sources speak of an outline where they need the place of a
declaration or what is written in it; the types of a source are those of its outline.

* `Outline.ofTrees` reads a compilation unit. Only the bodies of types are looked into, so methods,
  initializers and the bodies of enum constants take no part. What is no declaration is passed over.
* `NameScope.ofOutline` is what gives the names in an outline their meaning.
* `Setting.typesOf` are the types of a declaration, an outer type before those nested in it. -/
namespace FaultTolerance.Java.Source
open Text

/-! ## Syntax -/

/-- A parameter of a method. -/
inductive ParameterSyntax where
  /-- A type, and the number of dimensions after the parameter's name. -/
  | fixed (type : List Token) (dimensions : Nat)
  /-- A type before `...`, and the comment between it and the modifiers, if there is one. -/
  | variable (comment : Option String) (type : List Token)
  deriving Repr, Inhabited

structure MethodSyntax where
  annotations : List AnnotationSyntax
  typeParameters : List String
  type : List Token
  name : Token
  parameters : List ParameterSyntax
  deriving Repr, Inhabited

/-- Fields declared together. -/
structure FieldSyntax where
  annotations : List AnnotationSyntax
  type : List Token
  names : List Token
  deriving Repr, Inhabited

inductive TypeSyntax where
  | mk (kind : Kind) (annotations : List AnnotationSyntax) (name : Token)
      (typeParameters : List String) (methods : List MethodSyntax) (fields : List FieldSyntax)
      (nested : List TypeSyntax)
  deriving Repr, Inhabited

structure Outline where
  package : Option (List Token)
  imports : List ImportSyntax
  types : List TypeSyntax
  deriving Repr, Inhabited

/-! ## Members -/

/-- The first comment in front of a token. -/
def commentBefore (t : Token) : Option String :=
  (t.before.find? (·.kind == .comment)).map (·.text)

/-- The number of opening square brackets in the text of some trees. -/
def countSquares (ts : List Tree) : Nat :=
  (Token.textOf (Tree.tokensOf ts)).toList.count '['

/-- The parameter that some trees stand for. The one for the object itself is none. -/
def parameterOf? (ts : List Tree) : Option ParameterSyntax :=
  let unmodified := (modifiers ts).2
  match typeOf unmodified with
  | ([], _) => none
  | (w :: type, rest) =>
    match skipAnnotations rest with
    | t :: after =>
      if t.isSymbol "..." then
        some (.variable (if unmodified.length < ts.length then commentBefore w else none)
          (w :: type))
      else if t.word?.isSome && !(t :: after).any (·.isKeyword "this") then
        some (.fixed (w :: type) (countSquares after))
      else none
    | [] => none

def parametersOf (content : List Tree) : List ParameterSyntax :=
  (typedParts content).filterMap parameterOf?

/-- A declaration that is no type. -/
inductive MemberSyntax where
  | method (method : MethodSyntax)
  | field (field : FieldSyntax)

/-- The method or the fields that some trees declare, after their modifiers. -/
def memberOf? (annotations : List AnnotationSyntax) (ts : List Tree) : Option MemberSyntax :=
  let (typeParameters, rest) := typeParametersOf ts
  match typeOf (skipAnnotations rest) with
  | ([], _) => none
  | (type, .leaf name :: .group .round _ content _ :: _) =>
    if name.isWord then
      some (.method ⟨annotations, typeParameters, type, name, parametersOf content⟩)
    else none
  | (type, .leaf name :: rest) =>
    if name.isWord then some (.field ⟨annotations, type, name :: laterNames rest⟩) else none
  | _ => none

/-! ## Declarations -/

/-- The declarations in the body of a type. In that of an enum type they follow the first
semicolon. -/
def declarationsOf (kind : Kind) (content : List Tree) : List (List Tree) :=
  match kind with
  | .enumType => splitDeclarations false [] ((content.dropWhile (!·.isSymbol ";")).drop 1)
  | _ => splitDeclarations false [] content

/-- The types, methods and fields that a body declares, each in order. -/
structure Members where
  types : List TypeSyntax
  methods : List MethodSyntax
  fields : List FieldSyntax

/-- Puts what one declaration declares in front of what others do. -/
def Members.add (annotations : List AnnotationSyntax) (ts : List Tree) (m : Members) : Members :=
  match memberOf? annotations ts with
  | some (.method x) => { m with methods := x :: m.methods }
  | some (.field x) => { m with fields := x :: m.fields }
  | none => m

/-- The members among declarations. The first argument bounds the nesting of types. -/
def membersWithin : Nat → List (List Tree) → Members
  | 0, _ => ⟨[], [], []⟩
  | n + 1, declarations =>
    declarations.foldr (fun declaration m =>
      let (annotations, ts) := modifiers declaration
      match typeHead? ts with
      | some (kind, name, ts) =>
        match bodyOf? ts with
        | some content =>
          let inner := membersWithin n (declarationsOf kind content)
          let type := .mk kind annotations name (typeParametersOf ts).1 inner.methods
            inner.fields inner.types
          { m with types := type :: m.types }
        | none => m
      | none => m.add annotations ts) ⟨[], [], []⟩

/-! ## Compilation units -/

/-- The outline of a compilation unit. Types nest no deeper than there are tokens. -/
def Outline.ofTrees (ts : List Tree) : Outline :=
  let declarations := splitDeclarations false [] ts
  { package := declarations.findSome? packageOf?
    imports := declarations.filterMap importOf?
    types := (membersWithin (Tree.tokensOf ts).length declarations).types }

/-- The outline of a source. -/
def Outline.ofSource (cs : List Char) : Outline := .ofTrees (Tree.ofSource cs)

/-! ## Names -/

mutual

/-- The qualified and the simple name of a type, after those of the types nested in it. -/
def TypeSyntax.names (outer : String) (separator : Char) : TypeSyntax → List (String × String)
  | .mk _ _ name _ _ _ nested =>
    let qualified := qualify outer separator name.text
    namesOfAll qualified '$' nested ++ [(qualified, name.text)]

def namesOfAll (outer : String) (separator : Char) : List TypeSyntax → List (String × String)
  | [] => []
  | t :: ts => t.names outer separator ++ namesOfAll outer separator ts

end

namespace Outline

/-- The name of the package without white space. -/
def packageName? (o : Outline) : Option String := o.package.map Token.compactText

/-- The text in front of the names of top-level types. -/
def packagePrefix (o : Outline) : String := o.packageName?.getD ""

/-- The qualified and the simple name of every type of the source. -/
def declaredNames (o : Outline) : List (String × String) := namesOfAll o.packagePrefix '.' o.types

end Outline

namespace NameScope

/-- The scope of a source. Static imports give no names of types. -/
def ofOutline (known : List String) (o : Outline) : NameScope :=
  let imports := o.imports.filter (!·.isStatic)
  { package := o.packageName?
    declared := o.declaredNames.reverse.map Prod.swap
    imported :=
      ((imports.filter (!·.onDemand)).map fun i => importedName (Token.compactText i.path)).reverse
    onDemand := (imports.filter (·.onDemand)).map fun i => Token.compactText i.path
    known }

end NameScope

namespace Setting

/-! ## Values and annotations -/

def tokenRange (s : Setting) (t : Token) : Range := s.table.range t.start t.stop

/-- The range from the first of some tokens to the last. -/
def rangeOf (s : Setting) (ts : List Token) : Range :=
  s.table.range ((ts.head?.map Token.start).getD 0) (stopOf ts)

/-- The value of an expression. -/
def expression (s : Setting) (ts : List Tree) : Value :=
  let raw := Token.textOf (Tree.tokensOf ts)
  match formOf ts with
  | .string t => .string (.ofList (unquoted t.text.toList))
  | .char t => .char (.ofList (withoutApostrophes t.text.toList))
  | .number t => .number t.text
  | .signed => .number (.ofList (compact raw.toList))
  | .boolean b => .boolean b
  | .name t => .constant none t.text
  | .classLiteral => .classRef (s.names.resolveType [] (.ofList (literalType raw.toList)))
  | .field owner name =>
    .constant (some (s.names.resolve (Token.compactText (Tree.tokensOf owner)))) name.text
  | .other => .other raw

mutual

def value (s : Setting) : ValueSyntax → Value
  | .array _ items => .array (s.values items)
  | .expression ts => s.expression ts

def values (s : Setting) : List ValueSyntax → List Value
  | [] => []
  | v :: vs => s.value v :: s.values vs

end

/-- The range of a value. -/
def valueRange (s : Setting) : ValueSyntax → Range
  | .array group _ => s.rangeOf group.tokens
  | .expression ts => s.rangeOf (Tree.tokensOf ts)

/-- The member that an argument gives. Without a name it is the one called `value`. -/
def member (s : Setting) (a : ArgumentSyntax) : Member where
  name := (a.key.map Token.text).getD "value"
  value := s.value a.value
  range := s.valueRange a.value

def annotation (s : Setting) (a : AnnotationSyntax) : Annotation where
  name := s.names.resolve (Token.compactText a.name)
  members := a.arguments.map s.member
  range := s.table.range a.mark.start a.stop

/-! ## Members -/

/-- The type of a parameter. -/
def parameterType (s : Setting) (typeVariables : List String) : ParameterSyntax → String
  | .fixed type dimensions =>
    s.names.resolveType typeVariables
      (Token.textOf type ++ .ofList (Naming.dimensions dimensions))
  | .variable comment type =>
    s.names.resolveType typeVariables (comment.getD (Token.textOf type) ++ "[]")

def method (s : Setting) (typeVariables : List String) (m : MethodSyntax) : Method :=
  let typeVariables := typeVariables ++ m.typeParameters
  { name := m.name.text
    returnType := s.names.resolveType typeVariables (Token.textOf m.type)
    parameterTypes := m.parameters.map (s.parameterType typeVariables)
    annotations := m.annotations.map s.annotation
    range := s.tokenRange m.name }

theorem descriptor_method (s : Setting) (typeVariables : List String) (m : MethodSyntax) :
    (s.method typeVariables m).descriptor = (s.method typeVariables m).typesDescriptor := rfl

/-- The fields that are declared together. They share their type and their annotations. -/
def fields (s : Setting) (typeVariables : List String) (f : FieldSyntax) : List Field :=
  f.names.map fun name =>
    { name := name.text
      type := s.names.resolveType typeVariables (Token.textOf f.type)
      annotations := f.annotations.map s.annotation
      range := s.tokenRange name }

/-! ## Types -/

mutual

/-- A type and the types nested in it, which see its type parameters. -/
def typesOf (s : Setting) (outer : String) (separator : Char) (typeVariables : List String) :
    TypeSyntax → List JavaType
  | .mk kind annotations name typeParameters methods fields nested =>
    let qualified := qualify outer separator name.text
    let typeVariables := typeVariables ++ typeParameters
    { name := qualified
      kind
      origin := s.origin
      annotations := annotations.map s.annotation
      methods := methods.map (s.method typeVariables)
      fields := fields.flatMap (s.fields typeVariables) } ::
      s.typesOfAll qualified '$' typeVariables nested

def typesOfAll (s : Setting) (outer : String) (separator : Char) (typeVariables : List String) :
    List TypeSyntax → List JavaType
  | [] => []
  | t :: ts =>
    s.typesOf outer separator typeVariables t ++ s.typesOfAll outer separator typeVariables ts

end
end Setting

/-- The types of a source whose text is `cs`. -/
def Outline.toTypes (o : Outline) (cs : List Char) (origin : Origin) (known : List String) :
    List JavaType :=
  let s : Setting := ⟨.ofOutline known o, .ofText cs, origin⟩
  s.typesOfAll o.packagePrefix '.' [] o.types

end FaultTolerance.Java.Source
