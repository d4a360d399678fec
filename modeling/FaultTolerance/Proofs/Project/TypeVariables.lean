import FaultTolerance.Proofs.Analysis.Code
import FaultTolerance.Proofs.Project.Declarations
import FaultTolerance.Proofs.Source.TypeVariables

/-! Type variables in the types of a source. Whatever a variable is called, and whatever types have that
name, the members of a project's types show it as `Object`, with the dimensions that stand on the type of
the member, behind the name of a parameter or as `...`; those behind the name of a field or behind the
parameters of a method are not read. So a variable can be renamed (`SourceUnit.type_variables_erased`). -/
namespace FaultTolerance
open Java Source Naming
set_option autoImplicit false

/-- `Object` with some dimensions. -/
def objectType (n : Nat) : String := "java.lang.Object" ++ .ofList (dimensions n)

namespace Java.Source

/-- The type variables of a type and of those around it. -/
def variablesOf (path : List TypeSyntax) (t : TypeSyntax) : List String :=
  path.flatMap TypeSyntax.parameters ++ t.parameters

/-- `T` has the methods and fields of `t`, and shows every variable in scope of them as `Object`. -/
structure ErasesVariables (s : Setting) (inScope : List String) (t : TypeSyntax) (T : JavaType) :
    Prop where
  methods : T.methods = t.methods.map (s.method inScope)
  fields : T.fields = t.fields.flatMap (s.fields inScope)
  returnType : ∀ m ∈ t.methods, ∀ v ∈ inScope ++ m.typeParameters, ∀ n,
    Spells (Token.textOf m.type) v n → (s.method inScope m).returnType = objectType n
  parameterTypes : ∀ m ∈ t.methods, ∀ v ∈ inScope ++ m.typeParameters,
    ∀ (i : Nat) (p : ParameterSyntax) (n : Nat),
    m.parameters[i]? = some p → Spells p.typeText v n →
      (s.method inScope m).parameterTypes[i]? = some (objectType n)
  fieldTypes : ∀ f ∈ t.fields, ∀ v ∈ inScope, ∀ n, Spells (Token.textOf f.type) v n →
    ∀ x ∈ s.fields inScope f, x.type = objectType n

theorem erasesVariables_typeAt (s : Setting) (outer : String) (separator : Char)
    (path : List TypeSyntax) (t : TypeSyntax) :
    ErasesVariables s (variablesOf path t) t (s.typeAt outer separator [] path t) where
  methods := by
    cases t
    rfl
  fields := by
    cases t
    rfl
  returnType _ _ _ hv _ h := Setting.returnType_of_mem hv h
  parameterTypes _ _ _ hv _ _ _ hp h := Setting.parameterTypes_of_mem hv hp h
  fieldTypes _ _ _ hv _ h := Setting.fields_of_mem hv h

end Java.Source

/-- A source in which a type variable of another one has a new name. -/
def SourceUnit.RenamesVariable (old new : String) (u u' : SourceUnit) : Prop :=
  u'.origin = u.origin ∧ ∃ types, RenamedAt old new u.outline.types types ∧
    u'.outline.forget places = { u.outline with types }.forget places

/-- A type variable of a method or of a type around it is never looked up: where a type is written as the
variable, it is `Object` with the same dimensions. So the types, methods and fields of a source stay what
they are when a type variable gets a name that is not in use. -/
theorem SourceUnit.type_variables_erased (u : SourceUnit) (known : List String) :
    (∀ path t, Declares u.outline.types path t → ∃ T ∈ u.types known,
      T.name = u.nameAt path t ∧ ErasesVariables (u.setting known) (variablesOf path t) t T) ∧
    (∀ (w : Token) (n k : Nat) (dims : List Tree), IsBareWord w → AreSquares n dims →
      Spells (Token.textOf (w :: Tree.tokensOf dims)) w.text n ∧
      Spells (ParameterSyntax.fixed (w :: Tree.tokensOf dims) k).typeText w.text (n + k) ∧
      Spells (ParameterSyntax.variable none (w :: Tree.tokensOf dims)).typeText w.text (n + 1)) ∧
    ∀ (old new : String) (u' : SourceUnit), RenamesVariable old new u u' →
      u'.outline.declaredNames = u.outline.declaredNames ∧
      (u'.types known).map JavaType.withoutRanges = (u.types known).map JavaType.withoutRanges := by
  refine ⟨?_, ?_, ?_⟩
  · intro path t h
    refine ⟨(u.setting known).typeAt u.outline.packagePrefix '.' [] path t, ?_,
      Setting.name_typeAt .., erasesVariables_typeAt ..⟩
    rw [u.types_eq_typesOfAll]
    exact (Setting.mem_typesOfAll u.outline.types).mpr ⟨path, t, h, rfl⟩
  · intro w n k dims hw hdims
    have hplain := spells_squares hw hdims 0
    rw [dimensions, String.append_empty, Nat.add_zero] at hplain
    exact ⟨hplain, spells_squares hw hdims k, spells_squares hw hdims 1⟩
  · rintro old new u' ⟨horigin, types, hrenamed, hforget⟩
    constructor
    · rw [← Outline.declaredNames_forget (g := places), hforget, Outline.declaredNames_forget]
      exact namesOfAll_renamed hrenamed _ _
    · have hsame := Outline.toTypes_forget hforget u'.text.toList u.text.toList u.origin known
      have hid : places.text = id := rfl
      rw [hid, JavaType.reworded_id, Outline.toTypes_renamed hrenamed] at hsame
      rw [u'.types_eq_toTypes, u.types_eq_toTypes, horigin]
      exact hsame


/-- A box of things of type `v`. -/
def boxUnit (v : String) : SourceUnit where
  uri := "file:///Box.java"
  text := "class Box<" ++ v ++ "> \x7b " ++ v ++ "[] items; <E> " ++ v ++
    " pick(List<" ++ v ++ "> from, " ++ v ++ " rest[], E... more) \x7b \x7d \x7d"

def boxToken (text : String) (start : Nat) : Token := ⟨.word, text, [⟨.blank, " "⟩], start⟩

/-- The box with some types in it. -/
def boxType (v : String) (type fieldType : List Token) (parameters : List ParameterSyntax) : TypeSyntax :=
  .mk .classType [] (boxToken "Box" 6) [v] [⟨[], ["E"], type, boxToken "pick" 32, parameters⟩]
    [⟨[], fieldType, [boxToken "items" 19]⟩] []

/-- The names, the variables and the types of a class that has one method and one field. -/
def boxParts? : List TypeSyntax → Option (List Token × List (List String) × List String)
  | [.mk .classType [] name vs [⟨[], vs', type, method, parameters⟩]
      [⟨[], fieldType, fields⟩] []] =>
    some (name :: method :: fields, [vs, vs'],
      Token.textOf type :: Token.textOf fieldType :: parameters.map ParameterSyntax.typeText)
  | _ => none

theorem boxUnit_types {v : String} (hv : v ∈ ["T", "V"]) : ∃ type fieldType parameters,
    (boxUnit v).outline.types = [boxType v type fieldType parameters] ∧ Token.textOf type = v ∧
    Token.textOf fieldType = v ++ "[]" ∧
    parameters.map ParameterSyntax.typeText = ["List<" ++ v ++ ">", v ++ "[]", "E[]"] := by
  have hparts : ∀ v ∈ ["T", "V"], boxParts? (boxUnit v).outline.types =
      some ([boxToken "Box" 6, boxToken "pick" 32, boxToken "items" 19], [[v], ["E"]],
        [v, v ++ "[]", "List<" ++ v ++ ">", v ++ "[]", "E[]"]) := by decide +kernel
  specialize hparts v hv
  unfold boxParts? at hparts
  split at hparts
  case h_1 heq =>
    simp only [Option.some.injEq, Prod.mk.injEq, List.cons.injEq] at hparts
    obtain ⟨⟨rfl, rfl, rfl⟩, ⟨rfl, rfl, -⟩, htype, hfield, htexts⟩ := hparts
    exact ⟨_, _, _, heq, htype, hfield, htexts⟩
  case h_2 => cases hparts

theorem renamesVariable_box : SourceUnit.RenamesVariable "T" "V" (boxUnit "T") (boxUnit "V") := by
  obtain ⟨type, fieldType, parameters, htypes, htype, hfield, htexts⟩ :=
    boxUnit_types (v := "T") (by decide)
  obtain ⟨type', fieldType', parameters', htypes', htype', hfield', htexts'⟩ :=
    boxUnit_types (v := "V") (by decide)
  have hreturn : TextRenamed "T" "V" (Token.textOf type) (Token.textOf type') := by
    rw [htype, htype']
    exact .variable (n := 0) (by decide) (by decide)
  have hitems : TextRenamed "T" "V" (Token.textOf fieldType) (Token.textOf fieldType') := by
    rw [hfield, hfield']
    exact .variable (n := 1) (by decide +kernel) (by decide +kernel)
  have htexts : List.Forall₂ (TextRenamed "T" "V") (parameters.map ParameterSyntax.typeText)
      (parameters'.map ParameterSyntax.typeText) := by
    rw [htexts, htexts']
    refine .cons ?_ (.cons ?_ (.cons ?_ .nil))
    · exact .other (by decide +kernel) (not_spells (by decide +kernel)) (not_spells (by decide +kernel))
    · exact .variable (n := 1) (by decide +kernel) (by decide +kernel)
    · exact .other rfl (not_spells (by decide +kernel)) (not_spells (by decide +kernel))
  have hmethod : MethodRenamed "T" "V" ⟨[], ["E"], type, boxToken "pick" 32, parameters⟩
      ⟨[], ["E"], type', boxToken "pick" 32, parameters'⟩ :=
    ⟨rfl, rfl, hreturn, by simpa using htexts⟩
  have hother : "T" ∉ ["E"] := by decide
  have hrenamed : RenamedAt "T" "V" ([] ++ boxType "T" type fieldType parameters :: [])
      ([] ++ boxType "V" type' fieldType' parameters' :: []) :=
    @RenamedAt.type "T" "V" _ _ _ [] [] _ _ _ _ _ _ _ _ (.cons (.inside rfl hother hmethod) .nil)
      (.cons ⟨rfl, rfl, hitems⟩ .nil) .nil
  have hheaders : ∀ v ∈ ["T", "V"], (boxUnit v).outline.package = none ∧
      (boxUnit v).outline.imports = [] := by
    have hempty : ∀ v ∈ ["T", "V"], (boxUnit v).outline.package = none ∧
        (boxUnit v).outline.imports.isEmpty = true := by decide +kernel
    exact fun v hv => ⟨(hempty v hv).1, List.isEmpty_iff.mp (hempty v hv).2⟩
  obtain ⟨hpackage, himports⟩ := hheaders "T" (by decide)
  obtain ⟨hpackage', himports'⟩ := hheaders "V" (by decide)
  refine ⟨rfl, [boxType "V" type' fieldType' parameters'], htypes ▸ hrenamed, ?_⟩
  dsimp only
  rw [hpackage, himports, ← hpackage', ← himports', ← htypes']

/-- What the box shows where its variable, or that of its method, is written. -/
theorem objects_of_box {s : Setting} {type fieldType : List Token} {parameters : List ParameterSyntax}
    {T : JavaType} (htype : Token.textOf type = "T") (hfield : Token.textOf fieldType = "T[]")
    (htexts : parameters.map ParameterSyntax.typeText = ["List<T>", "T[]", "E[]"])
    (h : ErasesVariables s ["T"] (boxType "T" type fieldType parameters) T) :
    (∀ x ∈ T.fields, x.type = "java.lang.Object[]") ∧
    ∀ m ∈ T.methods, m.returnType = "java.lang.Object" ∧
      m.parameterTypes[1]? = some "java.lang.Object[]" ∧
      m.parameterTypes[2]? = some "java.lang.Object[]" := by
  have hobject : objectType 1 = "java.lang.Object[]" := by decide
  have hv : "T" ∈ ["T"] := List.mem_singleton_self _
  constructor
  · intro x hx
    rw [h.fields] at hx
    obtain ⟨f, hf, hx⟩ := List.mem_flatMap.mp hx
    have hspells : Spells (Token.textOf f.type) "T" 1 := by
      obtain rfl := List.mem_singleton.mp hf
      rw [hfield]
      decide +kernel
    rw [h.fieldTypes f hf "T" hv 1 hspells x hx, hobject]
  · intro m hm
    rw [h.methods] at hm
    obtain ⟨m, hmem, rfl⟩ := List.mem_map.mp hm
    obtain rfl := List.mem_singleton.mp hmem
    have hparameter : ∀ (i : Nat) (text : String), ["List<T>", "T[]", "E[]"][i]? = some text →
        ∃ p, parameters[i]? = some p ∧ p.typeText = text := by
      intro i text hi
      rw [← htexts, List.getElem?_map] at hi
      exact Option.map_eq_some_iff.mp hi
    obtain ⟨rest, hrest, hresttext⟩ := hparameter 1 "T[]" rfl
    obtain ⟨more, hmore, hmoretext⟩ := hparameter 2 "E[]" rfl
    have hscope : "T" ∈ ["T"] ++ ["E"] ∧ "E" ∈ ["T"] ++ ["E"] := by decide
    rw [← hobject]
    refine ⟨h.returnType _ hmem "T" hscope.1 0 ?_, h.parameterTypes _ hmem "T" hscope.1 1 rest 1 hrest ?_,
      h.parameterTypes _ hmem "E" hscope.2 2 more 1 hmore ?_⟩
    · rw [htype]
      decide
    · rw [hresttext]
      decide +kernel
    · rw [hmoretext]
      decide +kernel

theorem type_variables_erased_box :
    (∃ T ∈ (boxUnit "T").types ["T"], T.name = "Box" ∧
      (∀ x ∈ T.fields, x.type = "java.lang.Object[]") ∧
      ∀ m ∈ T.methods, m.returnType = "java.lang.Object" ∧
        m.parameterTypes[1]? = some "java.lang.Object[]" ∧
        m.parameterTypes[2]? = some "java.lang.Object[]") ∧
    Spells (ParameterSyntax.fixed [boxToken "T" 0] 2).typeText "T" 2 ∧
    ((boxUnit "V").types ["T"]).map JavaType.withoutRanges =
      ((boxUnit "T").types ["T"]).map JavaType.withoutRanges := by
  obtain ⟨herased, hspelled, hrenamed⟩ := (boxUnit "T").type_variables_erased ["T"]
  refine ⟨?_, ?_, ?_⟩
  · obtain ⟨type, fieldType, parameters, htypes, htype, hfield, htexts⟩ :=
      boxUnit_types (v := "T") (by decide)
    obtain ⟨T, hT, hname, h⟩ := herased [] (boxType "T" type fieldType parameters)
      (.here (htypes ▸ List.mem_singleton_self _))
    have hpackage : (boxUnit "T").outline.packagePrefix = "" := by decide +kernel
    rw [SourceUnit.nameAt, hpackage] at hname
    exact ⟨T, hT, hname, objects_of_box htype hfield htexts h⟩
  · have hword : IsBareWord (boxToken "T" 0) := by decide
    exact (hspelled (boxToken "T" 0) 0 2 [] hword ⟨rfl, nofun, nofun⟩).2.1
  · exact (hrenamed "T" "V" (boxUnit "V") renamesVariable_box).2

end FaultTolerance
