import FaultTolerance.Analyzer
import FaultTolerance.Proofs.Occurrences

/-! Annotations that denote no entry of the catalog play no part (`Model.ignores_foreign`). A model that
leaves them out has the same occurrences, and with them the same properties and diagnostics. -/
namespace FaultTolerance
open Java
set_option autoImplicit false

/-- The model without some of its annotations. -/
def Model.leavingOut (model : Model) (out : Annotation → Bool) : Model :=
  { model with annotationsOn := fun e => (model.annotationsOn e).filter fun a => !out a }

/-- Whether some annotations play no part: none of them occurs, and an analysis of the model without
them comes to the same occurrences, properties and diagnostics. -/
structure Model.Ignores (model : Model) (out : Annotation → Bool) : Prop where
  absent : ∀ ids, ∀ o ∈ model.occurrences ids, out o.annotation = false
  occurrences : ∀ ids, (model.leavingOut out).occurrences ids = model.occurrences ids
  properties : ∀ scope, Analyzer.properties (model.leavingOut out) scope =
    Analyzer.properties model scope
  diagnostics : ∀ settings uris format,
    Analyzer.diagnostics settings (model.leavingOut out) uris format =
      Analyzer.diagnostics settings model uris format

section leavingOut
variable {out : Annotation → Bool} (hout : ∀ a, out a = true → Catalog.resolve? a = none)
include hout

/-! ## Occurrences -/

theorem Occurrence.among_leavingOut (t : JavaType) (target : Target)
    (annotations : List Annotation) :
    among t target (annotations.filter fun a => !out a) = among t target annotations := by
  unfold among
  rw [List.filterMap_filter]
  apply List.filterMap_congr
  intro a _
  by_cases ha : out a = true
  · simp [ha, hout a ha]
  · simp [ha]

variable (model : Model)

theorem Occurrence.ofType_leavingOut (t : JavaType) (methods : List Method) :
    ofType (model.leavingOut out) t methods = ofType model t methods := by
  unfold ofType
  simp only [Model.leavingOut, among_leavingOut hout]

theorem Model.occurrences_leavingOut (ids : List Nat) :
    (model.leavingOut out).occurrences ids = model.occurrences ids := by
  unfold Model.occurrences
  simp only [Occurrence.ofType_leavingOut hout]
  rfl

theorem Occurrence.inType_leavingOut (id : Nat) :
    inType (model.leavingOut out) id = inType model id := by
  unfold inType
  simp only [ofType_leavingOut hout]
  rfl

theorem Model.out_eq_false_of_mem_occurrences {ids : List Nat} {o : Occurrence}
    (h : o ∈ model.occurrences ids) : out o.annotation = false := by
  obtain ⟨t, methods, _, ho⟩ := Model.mem_occurrences.mp h
  obtain ⟨_, _, _, hspec⟩ := Occurrence.mem_ofType.mp ho
  cases ha : out o.annotation with
  | false => rfl
  | true =>
    rw [hout o.annotation ha] at hspec
    cases hspec

/-! ## Properties -/

theorem typeAnnotation?_leavingOut (t : JavaType) (spec : Catalog.Spec) :
    typeAnnotation? (model.leavingOut out) t spec = typeAnnotation? model t spec := by
  unfold typeAnnotation?
  change ((model.annotationsOn (.type t)).filter fun a => !out a).find? _ = _
  rw [List.find?_filter]
  congr 1
  funext a
  rw [Bool.eq_iff_iff]
  by_cases ha : out a = true
  · simp [ha, hout a ha]
  · simp [ha]

theorem Derivation.visit_leavingOut : visit (model.leavingOut out) = visit model := by
  funext d o
  unfold visit
  simp only [typeAnnotation?_leavingOut hout]

theorem Derivation.visitType_leavingOut : visitType (model.leavingOut out) = visitType model := by
  funext d id
  unfold visitType
  rw [Occurrence.inType_leavingOut hout, visit_leavingOut hout]

theorem Analyzer.properties_leavingOut (scope : Scope) :
    properties (model.leavingOut out) scope = properties model scope := by
  unfold properties projectProperties
  rw [Derivation.visitType_leavingOut hout]
  rfl

/-! ## Diagnostics -/

theorem Fallback.findings_leavingOut (checkSignatures : Bool) (id : Nat) :
    findings (model.leavingOut out) checkSignatures id = findings model checkSignatures id := by
  unfold findings
  rw [Occurrence.inType_leavingOut hout]
  rfl

theorem Analyzer.typeDiagnostics_leavingOut (settings : DiagnosticSettings)
    (format : DocumentFormat) :
    typeDiagnostics settings format (model.leavingOut out) =
      typeDiagnostics settings format model := by
  funext id
  unfold typeDiagnostics
  rw [Fallback.findings_leavingOut hout]

theorem Analyzer.diagnostics_leavingOut (settings : Settings) (uris : List String)
    (format : Option DocumentFormat) :
    diagnostics settings (model.leavingOut out) uris format =
      diagnostics settings model uris format := by
  unfold diagnostics documentDiagnostics
  simp only [typeDiagnostics_leavingOut hout]
  rfl

theorem Model.ignores_foreign : model.Ignores out where
  absent _ _ ho := out_eq_false_of_mem_occurrences hout model ho
  occurrences := occurrences_leavingOut hout model
  properties := Analyzer.properties_leavingOut hout model
  diagnostics := Analyzer.diagnostics_leavingOut hout model

end leavingOut
end FaultTolerance
