import FaultTolerance.Model.Memory
import FaultTolerance.Model.Overlay
import FaultTolerance.Proofs.Analysis.Requests
import Mathlib.Data.List.Basic

/-! Types that cannot be read. A type of which the model gives no answer, or no methods, leaves no
trace in a derivation and no diagnostic (`visitType_of_unreadable`, `typeDiagnostics_of_unreadable`),
so a request comes out as if such types were not listed at all. -/
namespace FaultTolerance
open Java
set_option autoImplicit false

namespace Model

/-- Whether the model fails to give a type, or fails to give its methods. -/
def Unreadable (model : Model) (id : Nat) : Prop :=
  (∃ e, model.type id = .error e) ∨ ∃ e, model.methodsOf id = .error e

/-- The model with some types left out of its lists of a project's types. -/
def omittingInProject (model : Model) (out : Nat → Bool) : Model :=
  { model with resolveProject := fun scope => (model.resolveProject scope).map (·.filter (!out ·)) }

/-- The model with some types left out of its lists of a document's types. -/
def omittingInDocuments (model : Model) (out : Nat → Bool) : Model :=
  { model with typesInDocument := fun uri => (model.typesInDocument uri).map (·.filter (!out ·)) }

/-- Two models that answer alike but for questions about the types in `out`. -/
structure AgreesBesides (out : Nat → Bool) (model model' : Model) : Prop where
  resolveProject : model'.resolveProject = model.resolveProject
  typesInDocument : model'.typesInDocument = model.typesInDocument
  type : ∀ id, out id = false → model'.type id = model.type id
  methodsOf : ∀ id, out id = false → model'.methodsOf id = model.methodsOf id
  annotationsOn : model'.annotationsOn = model.annotationsOn
  rangeOf : model'.rangeOf = model.rangeOf

theorem AgreesBesides.refl (out : Nat → Bool) (model : Model) : model.AgreesBesides out model :=
  ⟨rfl, rfl, fun _ _ => rfl, fun _ _ => rfl, rfl, rfl⟩

end Model

/-! ## One type -/

section oneType
variable {model : Model} {id : Nat}

theorem Occurrence.inType_of_unreadable (h : model.Unreadable id) :
    ∃ e, Occurrence.inType model id = .error e := by
  unfold Occurrence.inType
  rcases h with ⟨e, he⟩ | ⟨e, he⟩
  · rw [he]
    exact ⟨e, rfl⟩
  · rw [he]
    cases model.type id with
    | error e' => exact ⟨e', rfl⟩
    | ok t => exact ⟨e, rfl⟩

/-- Nothing of an unreadable type gets into a derivation: no property, no hint, no mark of use and
no tier held for done. -/
theorem visitType_of_unreadable (h : model.Unreadable id) (d : Derivation) :
    d.visitType model id = d := by
  obtain ⟨e, he⟩ := Occurrence.inType_of_unreadable h
  unfold Derivation.visitType
  rw [he]

theorem typeDiagnostics_of_unreadable (h : model.Unreadable id) (settings : DiagnosticSettings)
    (format : DocumentFormat) : Analyzer.typeDiagnostics settings format model id = [] := by
  obtain ⟨e, he⟩ := Occurrence.inType_of_unreadable h
  unfold Analyzer.typeDiagnostics Fallback.findings
  rw [he]
  cases model.methodsOf id <;> rfl

variable {model' : Model} {out : Nat → Bool}

theorem Model.AgreesBesides.inType (h : model.AgreesBesides out model') (hid : out id = false) :
    Occurrence.inType model' id = Occurrence.inType model id := by
  unfold Occurrence.inType Occurrence.ofType
  rw [h.type id hid, h.methodsOf id hid, h.annotationsOn]

theorem Model.AgreesBesides.visitType (h : model.AgreesBesides out model') (hid : out id = false)
    (d : Derivation) : d.visitType model' id = d.visitType model id := by
  have hvisit : Derivation.visit model' = Derivation.visit model := by
    funext d o
    unfold Derivation.visit typeAnnotation?
    rw [h.annotationsOn]
  unfold Derivation.visitType
  rw [h.inType hid, hvisit]

theorem Model.AgreesBesides.typeDiagnostics (h : model.AgreesBesides out model')
    (hid : out id = false) (settings : DiagnosticSettings) (format : DocumentFormat) :
    Analyzer.typeDiagnostics settings format model' id =
      Analyzer.typeDiagnostics settings format model id := by
  have hfinding : Fallback.finding? model' = Fallback.finding? model := by
    funext check methods o
    unfold Fallback.finding?
    rw [h.rangeOf]
  unfold Analyzer.typeDiagnostics Fallback.findings
  rw [h.methodsOf id hid, h.inType hid, hfinding]

end oneType

/-! ## All types -/

section allTypes
variable {model model' : Model} {out : Nat → Bool}

theorem foldl_visitType_omitting (hout : ∀ id, out id = true → model.Unreadable id)
    (h : model.AgreesBesides out model') (ids : List Nat) (d : Derivation) :
    (ids.filter (!out ·)).foldl (Derivation.visitType model') d =
      ids.foldl (Derivation.visitType model) d := by
  induction ids generalizing d with
  | nil => rfl
  | cons id ids ih =>
    cases hid : out id with
    | true =>
      rw [List.filter_cons_of_neg (by simp [hid]), List.foldl_cons,
        visitType_of_unreadable (hout id hid), ih]
    | false =>
      rw [List.filter_cons_of_pos (by simp [hid]), List.foldl_cons, List.foldl_cons,
        h.visitType hid, ih]

theorem flatMap_typeDiagnostics_omitting (hout : ∀ id, out id = true → model.Unreadable id)
    (h : model.AgreesBesides out model') (settings : DiagnosticSettings)
    (format : DocumentFormat) (ids : List Nat) :
    (ids.filter (!out ·)).flatMap (Analyzer.typeDiagnostics settings format model') =
      ids.flatMap (Analyzer.typeDiagnostics settings format model) := by
  induction ids with
  | nil => rfl
  | cons id ids ih =>
    cases hid : out id with
    | true =>
      rw [List.filter_cons_of_neg (by simp [hid]), List.flatMap_cons,
        typeDiagnostics_of_unreadable (hout id hid), ih, List.nil_append]
    | false =>
      rw [List.filter_cons_of_pos (by simp [hid]), List.flatMap_cons, List.flatMap_cons,
        h.typeDiagnostics hid, ih]

end allTypes

/-! ## Requests -/

namespace Analyzer

theorem properties_fails_iff (model : Model) (scope : Scope) :
    (∃ e, properties model scope = .error e) ↔ ∃ e, model.resolveProject scope = .error e := by
  unfold properties projectProperties
  rw [mapError_fails_iff]
  cases model.resolveProject scope with
  | error e => exact ⟨fun _ => ⟨e, rfl⟩, fun _ => ⟨e, rfl⟩⟩
  | ok ids => exact ⟨nofun, nofun⟩

section omitting
variable {model model' : Model} {out : Nat → Bool}

theorem properties_omitting (hout : ∀ id, out id = true → model.Unreadable id)
    (h : model.AgreesBesides out model') (scope : Scope) :
    properties model scope = properties (model'.omittingInProject out) scope := by
  unfold properties projectProperties
  congr 1
  change _ = ((model'.resolveProject scope).map (·.filter (!out ·))).bind fun ids =>
    .ok (ids.foldl (Derivation.visitType model') {}).finish
  rw [h.resolveProject]
  cases model.resolveProject scope with
  | error e => rfl
  | ok ids =>
    have hrun := foldl_visitType_omitting hout h ids {}
    exact congrArg (fun d : Derivation => Except.ok d.finish) hrun.symm

theorem documentDiagnostics_omitting (hout : ∀ id, out id = true → model.Unreadable id)
    (h : model.AgreesBesides out model') (settings : DiagnosticSettings) (format : DocumentFormat)
    (uri : String) :
    documentDiagnostics settings format model uri =
      documentDiagnostics settings format (model'.omittingInDocuments out) uri := by
  have hlist : (model'.omittingInDocuments out).typesInDocument uri =
      (model.typesInDocument uri).map (·.filter (!out ·)) := by
    rw [← h.typesInDocument]
    rfl
  unfold documentDiagnostics
  rw [hlist]
  cases model.typesInDocument uri with
  | error e => cases e <;> rfl
  | ok ids =>
    have hrun := flatMap_typeDiagnostics_omitting hout h settings format ids
    exact congrArg (fun found => if settings.enabled then Except.ok found else .ok []) hrun.symm

theorem diagnostics_omitting (hout : ∀ id, out id = true → model.Unreadable id)
    (h : model.AgreesBesides out model') (settings : Settings) (uris : List String)
    (format : Option DocumentFormat) :
    diagnostics settings model uris format =
      diagnostics settings (model'.omittingInDocuments out) uris format :=
  diagnostics_congr fun uri _ => documentDiagnostics_omitting hout h _ _ uri

end omitting

/-- Types of which the model fails to give an answer or the methods are as good as not listed:
properties and diagnostics come out as for the model that leaves them out, also when that model could
read them. Such a type adds nothing to a derivation and has no diagnostics, and what another type
adds does not depend on it. So properties fail only where the project cannot be listed, and a request
for diagnostics only where diagnostics are on and a document cannot be listed though it is known. -/
theorem unreadable_types_isolated (model : Model) (out : Nat → Bool)
    (hout : ∀ id, out id = true → model.Unreadable id) :
    ((∀ scope, properties model scope = properties (model.omittingInProject out) scope) ∧
      ∀ settings uris format, diagnostics settings model uris format =
        diagnostics settings (model.omittingInDocuments out) uris format) ∧
    (∀ model', model.AgreesBesides out model' →
      (∀ scope, properties model scope = properties (model'.omittingInProject out) scope) ∧
      (∀ settings uris format, diagnostics settings model uris format =
        diagnostics settings (model'.omittingInDocuments out) uris format) ∧
      ∀ id, out id = false → ∀ (d : Derivation) settings format,
        d.visitType model id = d.visitType model' id ∧
          typeDiagnostics settings format model id = typeDiagnostics settings format model' id) ∧
    (∀ id, out id = true → ∀ (d : Derivation) settings format,
      d.visitType model id = d ∧ typeDiagnostics settings format model id = []) ∧
    (∀ scope, (∃ e, properties model scope = .error e) ↔
      ∃ e, model.resolveProject scope = .error e) ∧
    ∀ settings uris format, (∃ e, diagnostics settings model uris format = .error e) ↔
      settings.diagnostics.enabled = true ∧ ∃ uri ∈ uris, ∃ cause,
        model.typesInDocument uri = .error cause ∧ ∀ u, cause ≠ .unknownDocument u := by
  have hself := Model.AgreesBesides.refl out model
  refine ⟨⟨properties_omitting hout hself, diagnostics_omitting hout hself⟩, ?_, ?_,
    properties_fails_iff model, fun settings => diagnostics_fails_iff settings model⟩
  · intro model' h
    refine ⟨properties_omitting hout h, diagnostics_omitting hout h, ?_⟩
    intro id hid d settings format
    exact ⟨(h.visitType hid d).symm, (h.typeDiagnostics hid settings format).symm⟩
  · intro id hid d settings format
    exact ⟨visitType_of_unreadable (hout id hid) d,
      typeDiagnostics_of_unreadable (hout id hid) settings format⟩

/-- A service whose only method refers to a fallback method that is not there. -/
def serviceNamed (name : String) : JavaType where
  name := name
  kind := .classType
  origin := .source "file:///Services.java"
  methods := [{
    name := "call", returnType := "void", parameterTypes := []
    annotations := [⟨"Fallback", [⟨"fallbackMethod", .string "gone", none⟩], none⟩] }]

/-- Three services, of which the first cannot be read and the second does not tell its methods. -/
def flakyServices : Model :=
  let services : MemoryModel := ["Orders", "Stock", "Mail"].foldl
    (fun m name => (m.addType (serviceNamed name)).2) (.named "services")
  { failingTypes := [0], failingMethods := [1] : Overlay }.view services.toModel

theorem unreadable_types_isolated_services :
    (∀ id, (id == 0 || id == 1) = true → flakyServices.Unreadable id) ∧
      (properties flakyServices .sourcesOnly).toOption.map (·.properties.map (·.name)) =
        (properties (flakyServices.omittingInProject fun id => id == 0 || id == 1)
          .sourcesOnly).toOption.map (·.properties.map (·.name)) ∧
      (diagnostics {} flakyServices ["file:///Services.java"] none).toOption.map
          (·.map fun (uri, found) => (uri, found.length)) =
        some [("file:///Services.java", 1)] := by
  have hout : ∀ id, (id == 0 || id == 1) = true → flakyServices.Unreadable id := by
    intro id hid
    rcases Bool.or_eq_true_iff.mp hid with h | h
    · rw [beq_iff_eq.mp h]
      exact .inl ⟨_, rfl⟩
    · rw [beq_iff_eq.mp h]
      exact .inr ⟨_, rfl⟩
  obtain ⟨⟨hproperties, hdiagnostics⟩, _⟩ := unreadable_types_isolated flakyServices _ hout
  refine ⟨hout, by rw [hproperties], ?_⟩
  rw [hdiagnostics]
  decide +kernel

end Analyzer
end FaultTolerance
