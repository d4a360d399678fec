import FaultTolerance.Proofs.Analysis.Requests
import FaultTolerance.Proofs.Fallback.Findings

/-! A request for diagnostics asks for each document by itself: an answer has one sorted entry for each
document, which is what that document shows (`diagnostics_eq_ok_iff`). So two requests agree on the
documents that both ask for, and a request can be taken apart (`diagnostics_pointwise`). -/
namespace FaultTolerance
open Java
set_option autoImplicit false

namespace Analyzer

/-! ## One document -/

/-- The types of a document that can be read, with their methods. -/
def readableTypes (model : Model) (uri : String) : List (JavaType × List Method) :=
  match model.typesInDocument uri with
  | .ok ids => ids.filterMap model.readable?
  | .error _ => []

/-- The diagnostics of a type with these methods. -/
def shownFor (settings : DiagnosticSettings) (format : DocumentFormat) (model : Model) :
    JavaType × List Method → List Diagnostic
  | (t, methods) => ((Occurrence.ofType model t methods).filterMap
      (Fallback.finding? model settings.fallbackSignature methods)).map (Diagnostic.ofFinding format)

/-- What an answered request shows for a document. -/
def shownIn (settings : DiagnosticSettings) (format : DocumentFormat) (model : Model)
    (uri : String) : List Diagnostic :=
  if settings.enabled then (readableTypes model uri).flatMap (shownFor settings format model) else []

/-- Whether the types of a document can be listed, or the document is unknown. -/
def Answers (model : Model) (uri : String) : Prop :=
  ∀ cause, model.typesInDocument uri = .error cause → ∃ u, cause = .unknownDocument u

section document
variable {settings : DiagnosticSettings} {format : DocumentFormat} {model : Model} {uri : String}

theorem typeDiagnostics_eq (id : Nat) :
    typeDiagnostics settings format model id =
      (model.readable? id).toList.flatMap (shownFor settings format model) := by
  cases hr : model.readable? id with
  | some read =>
    obtain ⟨t, methods⟩ := read
    obtain ⟨ht, hm⟩ := Model.readable?_eq_some.mp hr
    simp only [typeDiagnostics, Fallback.findings_of_readable ht hm, Option.toList_some,
      List.flatMap_singleton, shownFor]
  | none =>
    have hfound := Occurrence.toOption_inType model id
    unfold typeDiagnostics Fallback.findings
    cases hi : Occurrence.inType model id with
    | ok found => simp [hi, hr, Except.toOption] at hfound
    | error e => cases model.methodsOf id <;> rfl

theorem flatMap_typeDiagnostics (ids : List Nat) :
    ids.flatMap (typeDiagnostics settings format model) =
      (ids.filterMap model.readable?).flatMap (shownFor settings format model) := by
  rw [List.filterMap_eq_flatMap_toList, List.flatMap_assoc]
  exact List.flatMap_congr fun id _ => typeDiagnostics_eq id

theorem documentDiagnostics_eq_ok_iff {found : List Diagnostic} :
    documentDiagnostics settings format model uri = .ok found ↔
      (settings.enabled = true → Answers model uri) ∧ found = shownIn settings format model uri := by
  unfold documentDiagnostics shownIn Answers readableTypes
  cases settings.enabled with
  | false => simp [eq_comm]
  | true =>
    cases hids : model.typesInDocument uri with
    | ok ids => simp [flatMap_typeDiagnostics, eq_comm]
    | error e => cases e <;> simp [eq_comm]

/-- What two requests show for a document is related when they list the same types in it. -/
theorem documentDiagnostics_both {settings' : DiagnosticSettings} {format' : DocumentFormat}
    {model' : Model} {R : List Diagnostic → List Diagnostic → Prop}
    (henabled : settings.enabled = settings'.enabled)
    (hdocuments : model.typesInDocument = model'.typesInDocument)
    (h : R (shownIn settings format model uri) (shownIn settings' format' model' uri)) :
    Both R (documentDiagnostics settings format model uri)
      (documentDiagnostics settings' format' model' uri) := by
  cases hd : documentDiagnostics settings format model uri with
  | error e =>
    have hd' : documentDiagnostics settings' format' model' uri = .error e := by
      rwa [documentDiagnostics_eq_error_iff, ← henabled, ← hdocuments,
        ← documentDiagnostics_eq_error_iff]
    rw [hd']
    exact .error e
  | ok found =>
    obtain ⟨hanswers, rfl⟩ := documentDiagnostics_eq_ok_iff.mp hd
    have hanswers' : settings'.enabled = true → Answers model' uri := by
      unfold Answers at hanswers ⊢
      rwa [← henabled, ← hdocuments]
    rw [documentDiagnostics_eq_ok_iff.mpr ⟨hanswers', rfl⟩]
    exact .ok h

end document

/-! ## Requests -/

/-- Whether the model says of every document that its project is not loaded. -/
def Unloaded (model : Model) (project : String) : Prop :=
  ∀ uri, model.typesInDocument uri = .error (.projectNotLoaded project)

theorem unloaded_toModel {m : MemoryModel} (h : m.loaded = false) :
    Unloaded m.toModel m.project := by
  intro uri
  change m.whenLoaded _ = _
  simp [MemoryModel.whenLoaded, h]

section requests
variable {settings : Settings} {model : Model} {format : Option DocumentFormat}

theorem diagnostics_eq_ok_iff {uris : List String} {entries : List (String × List Diagnostic)} :
    diagnostics settings model uris format = .ok entries ↔
      (settings.diagnostics.enabled = true → ∀ uri ∈ uris, Answers model uri) ∧ Sorted entries ∧
        ∀ uri found, (uri, found) ∈ entries ↔ uri ∈ uris ∧
          found = shownIn settings.diagnostics (formatOf settings format) model uri := by
  have hanswers : (∀ uri ∈ uris, ∃ found, documentDiagnostics settings.diagnostics
      (formatOf settings format) model uri = .ok found) ↔
        (settings.diagnostics.enabled = true → ∀ uri ∈ uris, Answers model uri) := by
    simp only [documentDiagnostics_eq_ok_iff, exists_and_left, exists_eq, and_true]
    exact ⟨fun h he uri hu => h uri hu he, fun h uri hu he => h he uri hu⟩
  rw [diagnostics_eq_gather, mapError_eq_ok_iff, gather_eq_ok_iff, hanswers]
  refine and_congr_right fun h => and_congr_right fun _ => ?_
  refine forall_congr' fun uri => forall_congr' fun found => iff_congr Iff.rfl ?_
  refine and_congr_right fun hu => ?_
  rw [documentDiagnostics_eq_ok_iff]
  exact and_iff_right fun he => h he uri hu

theorem diagnostics_of_unloaded (henabled : settings.diagnostics.enabled = true) {project : String}
    (h : Unloaded model project) {uris : List String} (hne : uris ≠ []) :
    diagnostics settings model uris format =
      .error (.typeModelUnavailable (.projectNotLoaded project)) := by
  cases uris with
  | nil => exact absurd rfl hne
  | cons uri uris =>
    rw [diagnostics_eq_gather, gather_cons]
    simp only [documentDiagnostics, henabled, h uri]
    rfl

theorem exists_answer_iff {uris : List String} :
    (∃ entries, diagnostics settings model uris format = .ok entries) ↔
      (settings.diagnostics.enabled = true → ∀ uri ∈ uris, Answers model uri) := by
  constructor
  · rintro ⟨entries, h⟩
    exact (diagnostics_eq_ok_iff.mp h).1
  · intro hanswers
    cases h : diagnostics settings model uris format with
    | ok entries => exact ⟨entries, rfl⟩
    | error e =>
      obtain ⟨henabled, uri, huri, cause, hcause, hne⟩ :=
        (diagnostics_fails_iff settings model uris format).mp ⟨e, h⟩
      obtain ⟨u, hu⟩ := hanswers henabled uri huri cause hcause
      exact absurd hu (hne u)

theorem exists_answer_of_disabled (h : settings.diagnostics.enabled = false) (uris : List String) :
    ∃ entries, diagnostics settings model uris format = .ok entries := by
  apply exists_answer_iff.mpr
  intro henabled
  rw [h] at henabled
  cases henabled

theorem diagnostics_append {uris uris' : List String} {all : List (String × List Diagnostic)} :
    diagnostics settings model (uris ++ uris') format = .ok all ↔
      ∃ front back, diagnostics settings model uris format = .ok front ∧
        diagnostics settings model uris' format = .ok back ∧ Sorted all ∧
        ∀ e, e ∈ all ↔ e ∈ front ∨ e ∈ back := by
  constructor
  · intro h
    obtain ⟨hanswers, hsorted, hall⟩ := diagnostics_eq_ok_iff.mp h
    have hpart : ∀ part, part ⊆ uris ++ uris' →
        ∃ entries, diagnostics settings model part format = .ok entries := by
      intro part hpart
      apply exists_answer_iff.mpr
      intro henabled uri huri
      exact hanswers henabled uri (hpart huri)
    obtain ⟨front, hfront⟩ := hpart uris (List.subset_append_left ..)
    obtain ⟨back, hback⟩ := hpart uris' (List.subset_append_right ..)
    refine ⟨front, back, hfront, hback, hsorted, ?_⟩
    rintro ⟨uri, found⟩
    rw [hall, (diagnostics_eq_ok_iff.mp hfront).2.2, (diagnostics_eq_ok_iff.mp hback).2.2,
      List.mem_append, or_and_right]
  · rintro ⟨front, back, hfront, hback, hsorted, hall⟩
    obtain ⟨hanswers, _, hfront⟩ := diagnostics_eq_ok_iff.mp hfront
    obtain ⟨hanswers', _, hback⟩ := diagnostics_eq_ok_iff.mp hback
    refine diagnostics_eq_ok_iff.mpr ⟨?_, hsorted, ?_⟩
    · intro henabled uri huri
      exact (List.mem_append.mp huri).elim (hanswers henabled uri) (hanswers' henabled uri)
    · intro uri found
      rw [hall, hfront, hback, List.mem_append, or_and_right]

/-- An answer has one entry for each document of the request: the diagnostics of the types of that
document that can be read, in order. So it says of a document what every other answer says of it,
whatever else is asked for, in what order or how often, and a request for the documents of two
requests has the entries of both. With diagnostics off every request is answered by entries without
diagnostics. With diagnostics on a request to a project that is not loaded fails as a whole. -/
theorem diagnostics_pointwise (settings : Settings) (model : Model)
    (format : Option DocumentFormat) :
    (∀ uris entries, diagnostics settings model uris format = .ok entries ↔
      (settings.diagnostics.enabled = true → ∀ uri ∈ uris, Answers model uri) ∧ Sorted entries ∧
        ∀ uri found, (uri, found) ∈ entries ↔ uri ∈ uris ∧
          found = shownIn settings.diagnostics (formatOf settings format) model uri) ∧
    (∀ uri u, model.typesInDocument uri = .error (.unknownDocument u) →
      shownIn settings.diagnostics (formatOf settings format) model uri = []) ∧
    (∀ uris uris', (∀ uri, uri ∈ uris ↔ uri ∈ uris') → ∀ entries,
      diagnostics settings model uris format = .ok entries →
        diagnostics settings model uris' format = .ok entries) ∧
    (∀ uris uris' all, diagnostics settings model (uris ++ uris') format = .ok all ↔
      ∃ front back, diagnostics settings model uris format = .ok front ∧
        diagnostics settings model uris' format = .ok back ∧ Sorted all ∧
        ∀ e, e ∈ all ↔ e ∈ front ∨ e ∈ back) ∧
    (settings.diagnostics.enabled = false → ∀ uris, ∃ entries,
      diagnostics settings model uris format = .ok entries ∧
        ∀ uri found, (uri, found) ∈ entries ↔ uri ∈ uris ∧ found = []) ∧
    (settings.diagnostics.enabled = true → ∀ project, Unloaded model project → ∀ uris, uris ≠ [] →
      diagnostics settings model uris format =
        .error (.typeModelUnavailable (.projectNotLoaded project))) := by
  refine ⟨fun uris entries => diagnostics_eq_ok_iff, ?_, ?_, fun _ _ _ => diagnostics_append, ?_, ?_⟩
  · intro uri u hunknown
    simp [shownIn, readableTypes, hunknown]
  · intro uris uris' hsame entries h
    obtain ⟨hanswers, hsorted, hall⟩ := diagnostics_eq_ok_iff.mp h
    refine diagnostics_eq_ok_iff.mpr ⟨?_, hsorted, ?_⟩
    · exact fun henabled uri huri => hanswers henabled uri ((hsame uri).mpr huri)
    · intro uri found
      rw [hall, hsame]
  · intro hdisabled uris
    obtain ⟨entries, hentries⟩ := exists_answer_of_disabled hdisabled uris
    refine ⟨entries, hentries, ?_⟩
    intro uri found
    rw [(diagnostics_eq_ok_iff.mp hentries).2.2]
    simp [shownIn, hdisabled]
  · intro henabled project hunloaded uris hne
    exact diagnostics_of_unloaded henabled hunloaded hne

end requests

/-- A project with a document that refers to a method that is not there. -/
def refundProject : MemoryModel := ((MemoryModel.named "refunds").addType Fallback.refundResource).2

theorem diagnostics_pointwise_refunds :
    (∀ uri, uri ∈ ["file:///RefundResource.java", "file:///Gone.java"] ↔
      uri ∈ ["file:///Gone.java", "file:///RefundResource.java", "file:///Gone.java"]) ∧
    (∃ entries, diagnostics {} refundProject.toModel
        ["file:///Gone.java", "file:///RefundResource.java", "file:///Gone.java"] none =
          .ok entries ∧
      entries.map (fun e => (e.1, e.2.length)) =
        [("file:///Gone.java", 0), ("file:///RefundResource.java", 2)]) ∧
    diagnostics {} (MemoryModel.unloaded "refunds").toModel ["file:///Gone.java"] none =
      .error (.typeModelUnavailable (.projectNotLoaded "refunds")) := by
  have hsame : ∀ uri, uri ∈ ["file:///RefundResource.java", "file:///Gone.java"] ↔
      uri ∈ ["file:///Gone.java", "file:///RefundResource.java", "file:///Gone.java"] := by
    intro uri
    simp only [List.mem_cons, List.not_mem_nil, or_false]
    tauto
  obtain ⟨_, _, hpermuted, _⟩ := diagnostics_pointwise {} refundProject.toModel none
  obtain ⟨_, _, _, _, _, hunloaded⟩ :=
    diagnostics_pointwise {} (MemoryModel.unloaded "refunds").toModel none
  refine ⟨hsame, ?_, ?_⟩
  · have heval : (diagnostics {} refundProject.toModel
        ["file:///RefundResource.java", "file:///Gone.java"] none).toOption.map
          (·.map fun e => (e.1, e.2.length)) =
        some [("file:///Gone.java", 0), ("file:///RefundResource.java", 2)] := by
      decide +kernel
    cases h : diagnostics {} refundProject.toModel
        ["file:///RefundResource.java", "file:///Gone.java"] none with
    | error e =>
      rw [h] at heval
      cases heval
    | ok entries =>
      rw [h] at heval
      exact ⟨entries, hpermuted _ _ hsame entries h, Option.some.inj heval⟩
  · exact hunloaded rfl "refunds" (unloaded_toModel rfl) _ (List.cons_ne_nil _ _)

end Analyzer
end FaultTolerance
