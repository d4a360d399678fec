import FaultTolerance.Proofs.Analysis.Pointwise

/-! What the settings of diagnostics change. Without the check of signatures a request shows what it
shows with it, less the diagnostics about signatures; in the other format it shows the same but for two
backticks in each of those (`diagnostics_switches`). Both compare two runs, document by document. -/
namespace FaultTolerance
open Java
set_option autoImplicit false

namespace Settings

def checkingSignatures (settings : Settings) (check : Bool) : Settings :=
  { settings with diagnostics := { settings.diagnostics with fallbackSignature := check } }

def showing (settings : Settings) (format : DocumentFormat) : Settings :=
  { settings with diagnostics := { settings.diagnostics with documentFormat := format } }

end Settings

/-! ## The check of signatures -/

namespace Fallback

def Problem.isMissing : Problem → Bool
  | .missingMethod _ => true
  | .incompatibleSignature .. => false

theorem problem?_unchecked (methods : List Method) (target : Target) (name : String) :
    problem? false methods target name =
      (problem? true methods target name).filter Problem.isMissing := by
  unfold problem?
  cases methods.filter (·.name == name) with
  | nil => rfl
  | cons candidate others =>
    cases others with
    | cons _ _ => rfl
    | nil =>
      cases target with
      | type => rfl
      | field _ => rfl
      | method annotated =>
        -- nothing is found unchecked, and what is found checked is about a signature
        cases hc : isCompatible annotated candidate <;> simp only [hc] <;> rfl

theorem finding?_unchecked (model : Model) (methods : List Method) (o : Occurrence) :
    finding? model false methods o =
      (finding? model true methods o).filter (·.problem.isMissing) := by
  rw [finding?_eq, finding?_eq]
  split
  · cases o.annotation.member? Catalog.fallbackMethod with
    | none => rfl
    | some member =>
      simp only [Option.bind_some]
      cases member.value.stringText? with
      | none => rfl
      | some name =>
        simp only [Option.bind_some]
        by_cases hempty : name = ""
        · rw [if_pos hempty, if_pos hempty]
          rfl
        · rw [if_neg hempty, if_neg hempty, problem?_unchecked, Option.filter_map]
          rfl
  · rfl

theorem expected_of_finding? {model : Model} {check : Bool} {t : JavaType} {methods : List Method}
    {o : Occurrence} (ho : o ∈ Occurrence.ofType model t methods) {f : Finding}
    (hf : finding? model check methods o = some f) {name expected : String}
    (hproblem : f.problem = .incompatibleSignature name expected) :
    ∃ annotated ∈ methods, expected = expectedSignature name annotated := by
  obtain ⟨_, hmem, _, hresolve⟩ := Occurrence.mem_ofType.mp ho
  have hverdict := verdict_of_finding? hresolve hf hproblem
  generalize hp : Problem.incompatibleSignature name expected = problem at hverdict
  cases hverdict with
  | missing _ => cases hp
  | @incompatible annotated _ _ htarget _ _ =>
    rw [htarget, Occurrence.method_mem_targets] at hmem
    exact ⟨annotated, hmem, (Problem.incompatibleSignature.inj hp).2⟩

end Fallback

theorem Diagnostic.ofFinding_code (format : DocumentFormat) (f : Fallback.Finding) :
    (ofFinding format f).code ≠ .fallbackMethodInvalidSignature ↔ f.problem.isMissing = true := by
  obtain ⟨range, problem⟩ := f
  cases problem <;> simp [ofFinding, error, Fallback.Problem.isMissing]

namespace Analyzer

/-! ## What is found in a document -/

/-- The findings that an answered request shows for a document. -/
def foundIn (settings : DiagnosticSettings) (model : Model) (uri : String) : List Fallback.Finding :=
  if settings.enabled then
    (readableTypes model uri).flatMap fun read => (Occurrence.ofType model read.1 read.2).filterMap
      (Fallback.finding? model settings.fallbackSignature read.2)
  else []

section document
variable {model : Model} {uri : String}

theorem shownIn_eq_map (settings : DiagnosticSettings) (format : DocumentFormat) :
    shownIn settings format model uri =
      (foundIn settings model uri).map (Diagnostic.ofFinding format) := by
  unfold shownIn foundIn
  split
  · exact List.map_flatMap.symm
  · rfl

theorem mem_foundIn {settings : DiagnosticSettings} {f : Fallback.Finding}
    (hf : f ∈ foundIn settings model uri) : ∃ read ∈ readableTypes model uri,
      ∃ o ∈ Occurrence.ofType model read.1 read.2,
        Fallback.finding? model settings.fallbackSignature read.2 o = some f := by
  unfold foundIn at hf
  split at hf
  · obtain ⟨read, hread, hf⟩ := List.mem_flatMap.mp hf
    exact ⟨read, hread, List.mem_filterMap.mp hf⟩
  · cases hf

/-! ## Without the check -/

/-- The diagnostics that are not about a signature. -/
def apartFromSignatures (found : List Diagnostic) : List Diagnostic :=
  found.filter fun d => d.code ≠ .fallbackMethodInvalidSignature

theorem foundIn_unchecked (settings : Settings) :
    foundIn (settings.checkingSignatures false).diagnostics model uri =
      (foundIn (settings.checkingSignatures true).diagnostics model uri).filter
        (·.problem.isMissing) := by
  unfold foundIn
  change (if settings.diagnostics.enabled then _ else _) =
    (if settings.diagnostics.enabled then _ else _ : List Fallback.Finding).filter _
  split
  · rw [List.filter_flatMap]
    refine List.flatMap_congr fun read _ => ?_
    rw [List.filter_filterMap]
    exact List.filterMap_congr fun o _ => Fallback.finding?_unchecked model read.2 o
  · rfl

theorem shownIn_unchecked (settings : Settings) (format : DocumentFormat) :
    apartFromSignatures
        (shownIn (settings.checkingSignatures true).diagnostics format model uri) =
      shownIn (settings.checkingSignatures false).diagnostics format model uri := by
  have hkept : (fun d : Diagnostic => decide (d.code ≠ .fallbackMethodInvalidSignature)) ∘
      Diagnostic.ofFinding format = fun f => f.problem.isMissing := by
    funext f
    exact Bool.eq_iff_iff.mpr (decide_eq_true_iff.trans (Diagnostic.ofFinding_code format f))
  rw [shownIn_eq_map, shownIn_eq_map, foundIn_unchecked, apartFromSignatures, List.filter_map, hkept]

/-! ## In the other format -/

def lead (name : String) : String :=
  "The referenced fallback method '" ++ name ++ "' has an incompatible signature; expected "

/-- Whether the messages expect the signature of a method of the document, once without backticks and
once between two. -/
def Backticked (model : Model) (uri message message' : String) : Prop :=
  ∃ name, ∃ read ∈ readableTypes model uri, ∃ annotated ∈ read.2,
    message = lead name ++ Fallback.expectedSignature name annotated ∧
    message' = lead name ++ ("`" ++ Fallback.expectedSignature name annotated ++ "`")

/-- Whether two diagnostics of a document are the same, but for the backticks around a signature. -/
structure SameButBackticks (model : Model) (uri : String) (plain marked : Diagnostic) : Prop where
  range : plain.range = marked.range
  severity : plain.severity = marked.severity
  source : plain.source = marked.source
  code : plain.code = marked.code
  missing (h : plain.code = .fallbackMethodDoesNotExist) : plain.message = marked.message
  invalid (h : plain.code = .fallbackMethodInvalidSignature) :
    Backticked model uri plain.message marked.message

theorem SameButBackticks.error {range : Text.Range} {code : DiagnosticCode} {message message' : String}
    (hmissing : code = .fallbackMethodDoesNotExist → message = message')
    (hinvalid : code = .fallbackMethodInvalidSignature → Backticked model uri message message') :
    SameButBackticks model uri (.error range code message) (.error range code message') :=
  ⟨rfl, rfl, rfl, rfl, hmissing, hinvalid⟩

theorem ofFinding_incompatible (format : DocumentFormat) (range : Text.Range)
    (name expected : String) :
    Diagnostic.ofFinding format ⟨range, .incompatibleSignature name expected⟩ =
      .error range .fallbackMethodInvalidSignature (lead name ++ format.code expected) := rfl

theorem sameButBackticks {settings : DiagnosticSettings} {f : Fallback.Finding}
    (hf : f ∈ foundIn settings model uri) :
    SameButBackticks model uri (Diagnostic.ofFinding .plainText f)
      (Diagnostic.ofFinding .markdown f) := by
  obtain ⟨read, hread, o, ho, hfound⟩ := mem_foundIn hf
  obtain ⟨range, problem⟩ := f
  cases problem with
  | missingMethod name => exact .error (fun _ => rfl) nofun
  | incompatibleSignature name expected =>
    obtain ⟨annotated, hannotated, rfl⟩ := Fallback.expected_of_finding? ho hfound rfl
    rw [ofFinding_incompatible, ofFinding_incompatible]
    exact .error nofun fun _ => ⟨name, read, hread, annotated, hannotated, rfl, rfl⟩

theorem shownIn_formats (settings : Settings) (d d' : DocumentFormat) :
    List.Forall₂ (SameButBackticks model uri)
      (shownIn (settings.showing d).diagnostics .plainText model uri)
      (shownIn (settings.showing d').diagnostics .markdown model uri) := by
  have hsame : foundIn (settings.showing d').diagnostics model uri =
      foundIn (settings.showing d).diagnostics model uri := rfl
  rw [shownIn_eq_map, shownIn_eq_map, hsame, List.forall₂_map_left_iff, List.forall₂_map_right_iff,
    List.forall₂_same]
  exact fun f => sameButBackticks

end document

/-! ## Requests -/

/-- A request without the check of signatures shows what it shows with it, less the diagnostics about
signatures. A request that shows plain text and one that shows markdown fail alike, or have the same
diagnostics for the same documents, but for the backticks around signatures. -/
theorem diagnostics_switches (settings : Settings) (model : Model) (uris : List String) :
    (∀ format, diagnostics (settings.checkingSignatures false) model uris format =
      (diagnostics (settings.checkingSignatures true) model uris format).map
        (List.map (Prod.map id apartFromSignatures))) ∧
    ∀ d d' plain marked, formatOf (settings.showing d) plain = .plainText →
      formatOf (settings.showing d') marked = .markdown →
        Both (Entrywise fun uri => List.Forall₂ (SameButBackticks model uri))
          (diagnostics (settings.showing d) model uris plain)
          (diagnostics (settings.showing d') model uris marked) := by
  constructor
  · intro format
    refine Both.eq_map (diagnostics_entrywise fun uri _ => ?_)
    exact documentDiagnostics_both rfl rfl (shownIn_unchecked settings _)
  · intro d d' plain marked hplain hmarked
    refine diagnostics_entrywise fun uri _ => ?_
    rw [hplain, hmarked]
    exact documentDiagnostics_both rfl rfl (shownIn_formats settings d d')

theorem diagnostics_switches_refunds :
    formatOf (({} : Settings).showing .markdown) (some .plainText) = .plainText ∧
    formatOf (({} : Settings).showing .markdown) none = .markdown ∧
    ∃ plain marked, diagnostics (({} : Settings).showing .markdown) refundProject.toModel
        ["file:///RefundResource.java"] (some .plainText) = .ok plain ∧
      diagnostics (({} : Settings).showing .markdown) refundProject.toModel
        ["file:///RefundResource.java"] none = .ok marked ∧
      Entrywise (fun uri => List.Forall₂ (SameButBackticks refundProject.toModel uri)) plain marked ∧
      marked.map (fun e => (e.1, e.2.map (·.message))) = [("file:///RefundResource.java",
        ["The referenced fallback method 'gone' does not exist",
          "The referenced fallback method 'recover' has an incompatible signature; " ++
            "expected `void recover(int)`"])] ∧
      diagnostics (({} : Settings).checkingSignatures false) refundProject.toModel
        ["file:///RefundResource.java"] none =
          .ok (marked.map (Prod.map id apartFromSignatures)) := by
  obtain ⟨hchecks, hformats⟩ :=
    diagnostics_switches {} refundProject.toModel ["file:///RefundResource.java"]
  have hboth := hformats .markdown .markdown (some .plainText) none rfl rfl
  have heval : (diagnostics (({} : Settings).showing .markdown) refundProject.toModel
      ["file:///RefundResource.java"] none).toOption.map (·.map fun e => (e.1, e.2.map (·.message))) =
      some [("file:///RefundResource.java",
        ["The referenced fallback method 'gone' does not exist",
          "The referenced fallback method 'recover' has an incompatible signature; " ++
            "expected `void recover(int)`"])] := by
    decide +kernel
  have hunchecked : diagnostics (({} : Settings).checkingSignatures false) refundProject.toModel
      ["file:///RefundResource.java"] none =
        (diagnostics (({} : Settings).showing .markdown) refundProject.toModel
          ["file:///RefundResource.java"] none).map (List.map (Prod.map id apartFromSignatures)) :=
    hchecks none
  refine ⟨rfl, rfl, ?_⟩
  rw [hunchecked]
  generalize diagnostics (({} : Settings).showing .markdown) refundProject.toModel
    ["file:///RefundResource.java"] (some .plainText) = plain at hboth ⊢
  generalize diagnostics (({} : Settings).showing .markdown) refundProject.toModel
    ["file:///RefundResource.java"] none = marked at hboth heval ⊢
  cases hboth with
  | error e => cases heval
  | ok h => exact ⟨_, _, rfl, rfl, h, Option.some.inj heval, rfl⟩

end Analyzer
end FaultTolerance
