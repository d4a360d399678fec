import FaultTolerance.Proofs.Source.Outline

/-! The uses of a simple name. A type is written in annotations, in class literals, in front of
constants and in the types of methods and fields. `Setting.ReadsAs` says that all these uses of a name
mean one type, wherever in a source they stand; a source reads each simple name as what its scope
resolves it to (`Setting.readsAs_resolve`), and a scope asks its five tables in turn
(`NameScope.resolve_declared` and its siblings). -/
namespace FaultTolerance.Java.Source
open Text Naming
set_option autoImplicit false

/-! ## Simple names -/

/-- A name that is looked up: no keyword for a type, and without a dot. -/
structure IsSimpleName (name : String) : Prop where
  notPrimitive : isPrimitive name = false
  notVoid : name ≠ "void"
  undotted : name.toList.contains '.' = false

instance (name : String) : Decidable (IsSimpleName name) :=
  decidable_of_iff (isPrimitive name = false ∧ name ≠ "void" ∧ name.toList.contains '.' = false)
    ⟨fun ⟨hp, hv, hu⟩ => ⟨hp, hv, hu⟩, fun ⟨hp, hv, hu⟩ => ⟨hp, hv, hu⟩⟩

/-- A type is written as `name`, with `n` dimensions and maybe with type arguments. -/
def Spells (written name : String) (n : Nat) : Prop :=
  splitDimensions (eraseChars written.toList) = (name.toList, n)

/-! ## Tables -/

theorem lookup_eq_some_of_unique {l : List (String × String)} {name q : String}
    (hmem : (name, q) ∈ l) (h : ∀ q', (name, q') ∈ l → q' = q) : l.lookup name = some q := by
  cases hlookup : l.lookup name with
  | none => exact absurd rfl (bne_iff_ne.mp (List.lookup_eq_none_iff.mp hlookup _ hmem))
  | some q' =>
    obtain ⟨before, after, rfl, _⟩ := List.lookup_eq_some_iff.mp hlookup
    rw [h q' (List.mem_append_right _ List.mem_cons_self)]

namespace NameScope
variable {s : NameScope} {name q : String}

/-! ## Resolution in its five steps -/

theorem resolve_of_isSimpleName (s : NameScope) (hname : IsSimpleName name) :
    s.resolve name = ((s.declared.lookup name).or <| (s.imported.lookup name).or <|
      (s.package.bind (s.knownIn? · name)).or <| (s.onDemand.findSome? (s.knownIn? · name)).or <|
      if ubiquitous.contains name then some ("java.lang." ++ name) else none).getD name := by
  unfold resolve
  rw [if_neg]
  rw [hname.notPrimitive, hname.undotted, decide_eq_false hname.notVoid]
  decide

theorem resolve_declared (hname : IsSimpleName name) (h : s.declared.lookup name = some q) :
    s.resolve name = q := by
  rw [resolve_of_isSimpleName s hname, h]
  rfl

theorem resolve_imported (hname : IsSimpleName name) (hdeclared : s.declared.lookup name = none)
    (h : s.imported.lookup name = some q) : s.resolve name = q := by
  rw [resolve_of_isSimpleName s hname, hdeclared, h]
  rfl

theorem resolve_package (hname : IsSimpleName name) (hdeclared : s.declared.lookup name = none)
    (himported : s.imported.lookup name = none) (h : s.package.bind (s.knownIn? · name) = some q) :
    s.resolve name = q := by
  rw [resolve_of_isSimpleName s hname, hdeclared, himported, h]
  rfl

theorem resolve_onDemand (hname : IsSimpleName name) (hdeclared : s.declared.lookup name = none)
    (himported : s.imported.lookup name = none)
    (hpackage : s.package.bind (s.knownIn? · name) = none)
    (h : s.onDemand.findSome? (s.knownIn? · name) = some q) : s.resolve name = q := by
  rw [resolve_of_isSimpleName s hname, hdeclared, himported, hpackage, h]
  rfl

/-- A name that no type of the source has means what it would mean in a source without types. -/
theorem resolve_undeclared (h : s.declared.lookup name = none) :
    s.resolve name = { s with declared := [] }.resolve name := by
  unfold resolve
  rw [h]
  rfl

theorem resolveType_of_spells (s : NameScope) {typeVariables : List String} {written : String}
    {n : Nat} (hvariable : name ∉ typeVariables) (h : Spells written name n) :
    s.resolveType typeVariables written = s.resolve name ++ .ofList (dimensions n) := by
  have hcontains : typeVariables.contains name = false := by
    rw [← Bool.not_eq_true, List.contains_iff_mem]
    exact hvariable
  unfold resolveType
  rw [h]
  simp only [String.ofList_toList, hcontains]
  rfl

end NameScope

/-! ## Uses -/

/-- Every use of the simple name `name` means the type `q`, unless `name` is a type variable there. -/
structure Setting.ReadsAs (s : Setting) (name q : String) : Prop where
  annotation (a : AnnotationSyntax) (h : Token.compactText a.name = name) : (s.annotation a).name = q
  classLiteral (ts : List Tree) (n : Nat) (hform : formOf ts = .classLiteral)
    (h : Spells (.ofList (Setting.literalType (Token.textOf (Tree.tokensOf ts)).toList)) name n) :
    s.expression ts = .classRef (q ++ .ofList (dimensions n))
  owner (ts owner : List Tree) (constant : Token) (hform : formOf ts = .field owner constant)
    (h : Token.compactText (Tree.tokensOf owner) = name) :
    s.expression ts = .constant (some q) constant.text
  returnType (typeVariables : List String) (m : MethodSyntax) (n : Nat)
    (hvariable : name ∉ typeVariables ++ m.typeParameters)
    (h : Spells (Token.textOf m.type) name n) :
    (s.method typeVariables m).returnType = q ++ .ofList (dimensions n)
  parameter (typeVariables : List String) (type : List Token) (k n : Nat)
    (hvariable : name ∉ typeVariables)
    (h : Spells (Token.textOf type ++ .ofList (dimensions k)) name n) :
    s.parameterType typeVariables (.fixed type k) = q ++ .ofList (dimensions n)
  variableParameter (typeVariables : List String) (comment : Option String) (type : List Token)
    (n : Nat) (hvariable : name ∉ typeVariables)
    (h : Spells (comment.getD (Token.textOf type) ++ "[]") name n) :
    s.parameterType typeVariables (.variable comment type) = q ++ .ofList (dimensions n)
  field (typeVariables : List String) (f : FieldSyntax) (n : Nat) (hvariable : name ∉ typeVariables)
    (h : Spells (Token.textOf f.type) name n) :
    ∀ x ∈ s.fields typeVariables f, x.type = q ++ .ofList (dimensions n)

theorem Setting.readsAs_resolve (s : Setting) (name : String) :
    s.ReadsAs name (s.names.resolve name) where
  annotation a h := congrArg s.names.resolve h
  classLiteral ts n hform h := by
    rw [expression, hform]
    exact congrArg Value.classRef (s.names.resolveType_of_spells List.not_mem_nil h)
  owner ts owner constant hform h := by
    rw [expression, hform, ← h]
  returnType typeVariables m n hvariable h := s.names.resolveType_of_spells hvariable h
  parameter typeVariables type k n hvariable h := s.names.resolveType_of_spells hvariable h
  variableParameter typeVariables comment type n hvariable h :=
    s.names.resolveType_of_spells hvariable h
  field typeVariables f n hvariable h x hx := by
    obtain ⟨token, _, rfl⟩ := List.mem_map.mp hx
    exact s.names.resolveType_of_spells hvariable h

end FaultTolerance.Java.Source
