import FaultTolerance.Proofs.Derivation.Wording
import FaultTolerance.Proofs.Project.Documents
import FaultTolerance.Proofs.Source.Layout

/-! The layout of sources has no part in what they mean. Sources that differ in white space only give one
project, up to ranges and to the white space in texts that are kept as written, and so the same properties
but for defaults that come from such texts (`layout_unread`). -/
namespace FaultTolerance
open Java Source
set_option autoImplicit false

/-- Two sources of one document that differ in layout only. Their tokens and comments are the same one by
one, with other white space between them and inside the comments. -/
structure SourceUnit.SameButLayout (u u' : SourceUnit) : Prop where
  uri : u.uri = u'.uri
  isDependency : u.isDependency = u'.isDependency
  text : essence u.text = essence u'.text

theorem SourceUnit.SameButLayout.alike {u u' : SourceUnit} (h : u.SameButLayout u') :
    u.Alike layout u' where
  uri := h.uri
  isDependency := h.isDependency
  outline := by
    have htokens := map_layout_tokens h.text
    rw [SourceUnit.outline, SourceUnit.outline, Outline.forget_ofSource, htokens,
      ← Outline.forget_ofSource]

namespace Analyzer

/-- However white space is put between the tokens of a project's sources, they give the same types, in the
same documents, up to ranges and to the white space in texts that are kept as written. So in every scope
its hints are the same, and so are its properties, one by one, but for the defaults that come from such
texts. -/
theorem layout_unread (project : String) (classpath : List String) (units units' : List SourceUnit)
    (h : List.Forall₂ SourceUnit.SameButLayout units units') :
    (∀ known, List.Forall₂ (fun u u' => (u.types known).map (JavaType.reworded compacted) =
      (u'.types known).map (JavaType.reworded compacted)) units units') ∧
    (MemoryModel.ofSources project classpath units).reworded compacted =
      (MemoryModel.ofSources project classpath units').reworded compacted ∧
    ∀ scope, ∃ info info',
      properties (MemoryModel.ofSources project classpath units).toModel scope = .ok info ∧
      properties (MemoryModel.ofSources project classpath units').toModel scope = .ok info' ∧
      info.hints = info'.hints ∧
      info.properties =
        ((MemoryModel.ofSources project classpath units).valuedProperties scope).map (·.item) ∧
      info'.properties =
        ((MemoryModel.ofSources project classpath units').valuedProperties scope).map (·.item) ∧
      List.Forall₂ (fun x x' => x.item.withoutDefault = x'.item.withoutDefault ∧
          x.isOther = x'.isOther ∧ (x.isOther = false → x = x'))
        ((MemoryModel.ofSources project classpath units).valuedProperties scope)
        ((MemoryModel.ofSources project classpath units').valuedProperties scope) := by
  have halike : List.Forall₂ (SourceUnit.Alike layout) units units' := h.imp fun _ _ hu => hu.alike
  have hsame := MemoryModel.ofSources_reworded project classpath halike
  have hloaded := (MemoryModel.indexed_ofSources project classpath units).loaded
  have hloaded' := (MemoryModel.indexed_ofSources project classpath units').loaded
  refine ⟨fun known => halike.imp fun u u' hu => hu.types known, hsame, fun scope => ?_⟩
  exact ⟨_, _, properties_of_loaded hloaded scope, properties_of_loaded hloaded' scope,
    MemoryModel.hints_alike hloaded hsame scope, (Model.map_item_valuedProperties _ _).symm,
    (Model.map_item_valuedProperties _ _).symm,
    MemoryModel.valuedProperties_alike hloaded hsame scope⟩

/-- A source in which nearly all is wrapped or spaced out that can be. -/
def looseUnit : SourceUnit where
  uri := "file:///C.java"
  text := "package p\n.q ;\nimport r . A ;\n@Retry( delay =\n1 + 1 ,\tmaxRetries= - 1)\nclass C \x7b\n" ++
    "@Fallback ( A\n. class )\nA [ ] m( List < A > \t... a ) \x7b \x7d\n\x7d\n"

def denseUnit : SourceUnit where
  uri := "file:///C.java"
  text := "package p.q;import r.A;@Retry(delay=1+1,maxRetries=-1)class C\x7b" ++
    "@Fallback(A.class)A[]m(List<A>...a)\x7b\x7d\x7d"

theorem layout_unread_loose :
    looseUnit.text ≠ denseUnit.text ∧
      List.Forall₂ SourceUnit.SameButLayout [looseUnit] [denseUnit] ∧
      ((MemoryModel.ofSources "shop" [] [looseUnit]).types.map fun t =>
          (t.name, t.methods.map (·.signature))) = [("p.q.C", ["m([LList;)[Lr/A;"])] ∧
      (((MemoryModel.ofSources "shop" [] [looseUnit]).valuedProperties .sourcesOnly).filterMap
          fun x => x.value?.map fun _ => (x.item.name, x.item.defaultValue)) =
        [("p.q.C/Retry/maxRetries", some "-1"), ("p.q.C/Retry/delay", some "1 + 1"),
          ("p.q.C/m/Fallback/value", some "r.A")] ∧
      (MemoryModel.ofSources "shop" [] [looseUnit]).reworded compacted =
        (MemoryModel.ofSources "shop" [] [denseUnit]).reworded compacted ∧
      ∃ info info',
        properties (MemoryModel.ofSources "shop" [] [looseUnit]).toModel .sourcesOnly = .ok info ∧
        properties (MemoryModel.ofSources "shop" [] [denseUnit]).toModel .sourcesOnly = .ok info' ∧
        info.hints = info'.hints ∧
        List.Forall₂ (fun x x' => x.item.withoutDefault = x'.item.withoutDefault ∧
            x.isOther = x'.isOther ∧ (x.isOther = false → x = x'))
          ((MemoryModel.ofSources "shop" [] [looseUnit]).valuedProperties .sourcesOnly)
          ((MemoryModel.ofSources "shop" [] [denseUnit]).valuedProperties .sourcesOnly) := by
  have htext : essence looseUnit.text = essence denseUnit.text := by
    simp only [essence, looseUnit, denseUnit, String.toList_append]
    decide +kernel
  have hsame : List.Forall₂ SourceUnit.SameButLayout [looseUnit] [denseUnit] :=
    .cons ⟨rfl, rfl, htext⟩ .nil
  obtain ⟨-, hproject, hscope⟩ := layout_unread "shop" [] [looseUnit] [denseUnit] hsame
  obtain ⟨info, info', hinfo, hinfo', hhints, -, -, hproperties⟩ := hscope .sourcesOnly
  have hlength : looseUnit.text.length ≠ denseUnit.text.length := by
    simp only [looseUnit, denseUnit, String.length_append]
    decide +kernel
  have hloose : ((MemoryModel.ofSources "shop" [] [looseUnit]).types.map fun t =>
        (t.name, t.methods.map (·.signature))) = [("p.q.C", ["m([LList;)[Lr/A;"])] ∧
      (((MemoryModel.ofSources "shop" [] [looseUnit]).valuedProperties .sourcesOnly).filterMap
          fun x => x.value?.map fun _ => (x.item.name, x.item.defaultValue)) =
        [("p.q.C/Retry/maxRetries", some "-1"), ("p.q.C/Retry/delay", some "1 + 1"),
          ("p.q.C/m/Fallback/value", some "r.A")] := by decide +kernel
  exact ⟨fun he => hlength (congrArg String.length he), hsame, hloose.1, hloose.2, hproject,
    info, info', hinfo, hinfo', hhints, hproperties⟩

end Analyzer
end FaultTolerance
