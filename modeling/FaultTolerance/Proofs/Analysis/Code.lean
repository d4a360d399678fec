import FaultTolerance.Proofs.Analysis.Unranged
import FaultTolerance.Proofs.Project.Alike
import FaultTolerance.Proofs.Source.Bodies.Code

/-! Code has no part in an analysis. Sources that differ in code only give one project, up to the ranges
in it, and so the same properties and, up to ranges, the same diagnostics (`code_unread`). -/
namespace FaultTolerance
open Java Source
set_option autoImplicit false

/-! ## Tokens without their places -/

namespace Java.Source

def Token.unplaced (t : Token) : Token := { t with start := 0 }

/-- The places of tokens, which may be forgotten. -/
def places : Forgetting where
  token := Token.unplaced
  text := id
  kind_token _ := rfl
  text_token _ := rfl
  token_token _ := rfl
  text_text _ := rfl
  followsBlank_token _ := rfl
  commentBefore_token t := (congrFun Option.map_id (commentBefore t)).symm
  text_textOf ts := by
    cases ts with
    | nil => rfl
    | cons t ts => simp [Token.textOf, Token.unplaced, Function.comp_def]
  compacted_text _ := rfl

end Java.Source

/-! ## Sources that differ in code only -/

/-- The tokens of a text, without their places in it. -/
def unplacedTokens (text : String) : List Token := (tokens text.toList).map Token.unplaced

/-- Two sources of one document that are the same text, or have no syntax errors and differ in code
only. -/
structure SourceUnit.SameButCode (u u' : SourceUnit) : Prop where
  uri : u.uri = u'.uri
  isDependency : u.isDependency = u'.isDependency
  text : u.text = u'.text ∨
    Source.SameButCode false (unplacedTokens u.text) (unplacedTokens u'.text)

namespace SourceUnit.SameButCode
variable {u u' : SourceUnit}

theorem outline (h : u.SameButCode u') : u.outline.forget places = u'.outline.forget places := by
  rcases h.text with htext | hcode
  · rw [SourceUnit.outline, htext, SourceUnit.outline]
  · have hsame : Outline.ofTrees (treesOf (unplacedTokens u.text)) =
        Outline.ofTrees (treesOf (unplacedTokens u'.text)) := Outline.ofTrees_sameButCode hcode
    calc u.outline.forget places
        = (Outline.ofTrees (treesOf (unplacedTokens u.text))).forget places :=
          Outline.forget_ofSource u.text.toList
      _ = (Outline.ofTrees (treesOf (unplacedTokens u'.text))).forget places := by rw [hsame]
      _ = u'.outline.forget places := (Outline.forget_ofSource u'.text.toList).symm

theorem alike (h : u.SameButCode u') : u.Alike places u' := ⟨h.uri, h.isDependency, h.outline⟩

/-- Up to ranges, the two sources have the same types. -/
theorem types (h : u.SameButCode u') (known : List String) :
    (u.types known).map JavaType.withoutRanges = (u'.types known).map JavaType.withoutRanges := by
  rw [← JavaType.reworded_id]
  exact h.alike.types known

end SourceUnit.SameButCode

/-- Sources that differ in code only give the same project, up to the ranges in its types. -/
theorem MemoryModel.ofSources_withoutRanges (project : String) (classpath : List String)
    {units units' : List SourceUnit} (h : List.Forall₂ SourceUnit.SameButCode units units') :
    (ofSources project classpath units).withoutRanges =
      (ofSources project classpath units').withoutRanges := by
  rw [← reworded_id]
  exact ofSources_reworded project classpath (h.imp fun _ _ hu => hu.alike)

/-! ## Both requests -/

namespace Analyzer

/-- Whatever stands in the bodies of methods, constructors and initializers, in the values of fields and
in the constants of enum types, a project's sources give the same types, in the same documents and up to
ranges. So its properties are the same in every scope, and its diagnostics are the same up to their
ranges. -/
theorem code_unread (project : String) (classpath : List String) (units units' : List SourceUnit)
    (h : List.Forall₂ SourceUnit.SameButCode units units') :
    (∀ known, List.Forall₂ (fun u u' => (u.types known).map JavaType.withoutRanges =
      (u'.types known).map JavaType.withoutRanges) units units') ∧
    (MemoryModel.ofSources project classpath units).withoutRanges =
      (MemoryModel.ofSources project classpath units').withoutRanges ∧
    (∀ scope, properties (MemoryModel.ofSources project classpath units).toModel scope =
      properties (MemoryModel.ofSources project classpath units').toModel scope) ∧
    ∀ settings uris format,
      (diagnostics settings (MemoryModel.ofSources project classpath units).toModel uris
          format).map withoutRanges =
        (diagnostics settings (MemoryModel.ofSources project classpath units').toModel uris
          format).map withoutRanges := by
  have hsame := MemoryModel.ofSources_withoutRanges project classpath h
  refine ⟨fun known => h.imp fun u u' hu => hu.types known, hsame, ?_, ?_⟩
  · intro scope
    rw [← properties_withoutRanges, hsame, properties_withoutRanges]
  · intro settings uris format
    rw [← diagnostics_withoutRanges, hsame, diagnostics_withoutRanges]

/-- The code in a class: the value of its fields, the code in its bodies, and the constants of an enum
type. -/
structure CartCode where
  value : String
  code : String
  constants : String

/-- A cart with fields, an initializer, a constructor, a method and a nested enum type. -/
def CartCode.unit (c : CartCode) : SourceUnit where
  uri := "file:///Cart.java"
  text := "package p; class Cart<T> \x7b @Retry int n =" ++ c.value ++ ", m[] =" ++ c.value ++ ", k;" ++
    " static \x7b" ++ c.code ++ " \x7d Cart() \x7b" ++ c.code ++ " \x7d" ++
    " @Fallback(fallbackMethod = \"gone\") void pay(T t) \x7b" ++ c.code ++ " \x7d" ++
    " enum Size \x7b" ++ c.constants ++ "; void fit() \x7b" ++ c.code ++ " \x7d \x7d \x7d"

def plainCode : CartCode := ⟨" 1", "", " S"⟩

/-- Code with local and anonymous classes, annotations, lambdas, strings with brackets and comments. -/
def busyCode : CartCode where
  value := " new Box<A, B>(x -> \x7b int y; return \"\x7d\"; \x7d) \x7b @Retry int z = 1, w; \x7d.z"
  code := " /* \x7d */ class Local \x7b @Timeout void gone() \x7b\x7d \x7d @Retry String s = \"\x7b\";" ++
    " // \x7d\n new Object() \x7b String gone() \x7b return '\x7b' + s; \x7d \x7d;"
  constants := " S(1, \"; \x7d\") \x7b @Retry int a; void gone() \x7b ; \x7d \x7d," ++
    " @Retry L(() -> \x7b int b; \x7d)"

/-- A symbol with some white space in front of it. -/
def symbol (before text : String) : Token :=
  ⟨.symbol, text, if before = "" then [] else [⟨.blank, before⟩], 0⟩

/-- The tokens of a cart, put together from those of its code. -/
def cartTokens (value code constants : List Token) : List Token :=
  unplacedTokens "package p" ++ symbol "" ";" ::
    (unplacedTokens " class Cart<T>" ++ symbol " " "\x7b" ::
      (unplacedTokens " @Retry int n" ++ symbol " " "=" ::
          (value ++ symbol "" "," :: (unplacedTokens " m[]" ++ symbol " " "=" ::
            (value ++ symbol "" "," :: unplacedTokens " k"))) ++ symbol "" ";" ::
        (unplacedTokens " static" ++ symbol " " "\x7b" :: code ++ symbol " " "\x7d" ::
          (unplacedTokens " Cart()" ++ symbol " " "\x7b" :: code ++ symbol " " "\x7d" ::
            (unplacedTokens " @Fallback(fallbackMethod = \"gone\") void pay(T t)" ++
                symbol " " "\x7b" :: code ++ symbol " " "\x7d" ::
              (unplacedTokens " enum Size" ++ symbol " " "\x7b" ::
                  (constants ++ symbol "" ";" ::
                    (unplacedTokens " void fit()" ++ symbol " " "\x7b" :: code ++
                      symbol " " "\x7d" :: [])) ++
                symbol " " "\x7d" :: []))))) ++
      symbol " " "\x7d" :: [])

theorem head_of_text {text : String}
    (h : closesAll [] (unplacedTokens text) && isHead false (treesOf (unplacedTokens text)) &&
      anglesClosed 0 (treesOf (unplacedTokens text))) : Head (unplacedTokens text) := by
  simp only [Bool.and_eq_true] at h
  exact ⟨balanced_of_closesAll h.1.1, h.1.2, h.2⟩

theorem initializer_of_text {text : String}
    (h : closesAll [] (unplacedTokens text) && isInitializer (treesOf (unplacedTokens text))) :
    Initializer (unplacedTokens text) := by
  simp only [Bool.and_eq_true] at h
  exact ⟨balanced_of_closesAll h.1, h.2⟩

theorem noSemicolon_of_text {text : String}
    (h : closesAll [] (unplacedTokens text) &&
      (treesOf (unplacedTokens text)).all (!·.isSymbol ";")) :
    NoSemicolon (unplacedTokens text) := by
  simp only [Bool.and_eq_true, List.all_eq_true, Bool.not_eq_true'] at h
  exact ⟨balanced_of_closesAll h.1, h.2⟩

/-- Whether some code can stand in a cart. -/
structure CartCode.WellFormed (c : CartCode) : Prop where
  value : Initializer (unplacedTokens c.value)
  code : Balanced (unplacedTokens c.code)
  constants : NoSemicolon (unplacedTokens c.constants)
  text : unplacedTokens c.unit.text =
    cartTokens (unplacedTokens c.value) (unplacedTokens c.code) (unplacedTokens c.constants)

theorem plainCode_wellFormed : plainCode.WellFormed where
  value := initializer_of_text (by decide +kernel)
  code := balanced_of_closesAll (by decide +kernel)
  constants := noSemicolon_of_text (by decide +kernel)
  text := by
    simp only [CartCode.unit, plainCode, cartTokens, unplacedTokens, String.toList_append]
    decide +kernel

theorem busyCode_wellFormed : busyCode.WellFormed where
  value := initializer_of_text (by decide +kernel)
  code := balanced_of_closesAll (by decide +kernel)
  constants := noSemicolon_of_text (by decide +kernel)
  text := by
    simp only [CartCode.unit, busyCode, cartTokens, unplacedTokens, String.toList_append]
    decide +kernel

theorem sameButCode_cart {c c' : CartCode} (h : c.WellFormed) (h' : c'.WellFormed) :
    c.unit.SameButCode c'.unit := by
  have hsize : NoSemicolon (unplacedTokens " m[]") := noSemicolon_of_text (by decide +kernel)
  have hrest : NoSemicolon (unplacedTokens " k") := noSemicolon_of_text (by decide +kernel)
  have hcart : kindOf? (unplacedTokens " class Cart<T>") = some .classType := by
    decide +kernel
  have henum : kindOf? (unplacedTokens " enum Size") = some .enumType := by decide +kernel
  have hbody : ∀ {head ts ts' : List Token}, Head head → kindOf? head = none →
      Source.SameButCode false ts ts' →
        Source.SameButCode false
          (head ++ symbol " " "\x7b" :: unplacedTokens c.code ++ symbol " " "\x7d" :: ts)
          (head ++ symbol " " "\x7b" :: unplacedTokens c'.code ++ symbol " " "\x7d" :: ts') :=
    fun hhead hkind hts => .code hhead hkind rfl rfl h.code h'.code rfl rfl hts
  refine ⟨rfl, rfl, .inr ?_⟩
  rw [h.text, h'.text]
  -- one step a declaration, in the order of the text; what is left each time is what follows it
  refine .plain (balanced_of_closesAll (by decide +kernel)) rfl ?_
  refine .type (head_of_text (by decide +kernel)) hcart rfl rfl ?_ rfl rfl .nil
  refine .fields (head_of_text (by decide +kernel)) (by decide +kernel) rfl
    (.next h.value h'.value rfl rfl hsize rfl (.names h.value h'.value rfl rfl hrest)) rfl rfl ?_
  refine hbody (head_of_text (by decide +kernel)) (by decide +kernel) ?_
  refine hbody (head_of_text (by decide +kernel)) (by decide +kernel) ?_
  refine hbody (head_of_text (by decide +kernel)) (by decide +kernel) ?_
  refine .type (head_of_text (by decide +kernel)) henum rfl rfl ?_ rfl rfl .nil
  refine .members h.constants h'.constants rfl rfl ?_
  exact hbody (head_of_text (by decide +kernel)) (by decide +kernel) .nil

theorem code_unread_cart :
    plainCode.unit.text ≠ busyCode.unit.text ∧
      List.Forall₂ SourceUnit.SameButCode [plainCode.unit] [busyCode.unit] ∧
      ((MemoryModel.ofSources "shop" [] [plainCode.unit]).types.map fun t =>
          (t.name, t.methods.map (·.signature), t.fields.map (·.name))) =
        [("p.Cart", ["pay(Ljava/lang/Object;)V"], ["n", "m", "k"]), ("p.Cart$Size", ["fit()V"], [])] ∧
      (MemoryModel.ofSources "shop" [] [plainCode.unit]).withoutRanges =
        (MemoryModel.ofSources "shop" [] [busyCode.unit]).withoutRanges ∧
      properties (MemoryModel.ofSources "shop" [] [plainCode.unit]).toModel .sourcesOnly =
        properties (MemoryModel.ofSources "shop" [] [busyCode.unit]).toModel .sourcesOnly ∧
      (diagnostics {} (MemoryModel.ofSources "shop" [] [plainCode.unit]).toModel
          ["file:///Cart.java"] none).map withoutRanges =
        (diagnostics {} (MemoryModel.ofSources "shop" [] [busyCode.unit]).toModel
          ["file:///Cart.java"] none).map withoutRanges := by
  have hsame : List.Forall₂ SourceUnit.SameButCode [plainCode.unit] [busyCode.unit] :=
    .cons (sameButCode_cart plainCode_wellFormed busyCode_wellFormed) .nil
  obtain ⟨-, hproject, hproperties, hdiagnostics⟩ :=
    code_unread "shop" [] [plainCode.unit] [busyCode.unit] hsame
  have hlength : plainCode.unit.text.length ≠ busyCode.unit.text.length := by
    simp only [CartCode.unit, plainCode, busyCode, String.length_append]
    decide +kernel
  refine ⟨fun he => hlength (congrArg String.length he), hsame, ?_, hproject,
    hproperties .sourcesOnly, hdiagnostics ..⟩
  decide +kernel

end Analyzer
end FaultTolerance
