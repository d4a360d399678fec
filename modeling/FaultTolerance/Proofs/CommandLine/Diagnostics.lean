import FaultTolerance.CommandLine.Run
import FaultTolerance.Proofs.Analysis.Pointwise
import FaultTolerance.Proofs.Analysis.Ranges
import FaultTolerance.Proofs.CommandLine.Loading

/-! The diagnostics command. A run that can read its project ends with a report on each of the project's
documents (`IsListing`), whose lines, counts and exit code say what was found (`run_diagnostics`). -/
namespace FaultTolerance
open Files
set_option autoImplicit false

/-! ## Findings in a document -/

theorem Diagnostic.severity_ofFinding (format : DocumentFormat) (f : Fallback.Finding) :
    (Diagnostic.ofFinding format f).severity = .error := by
  unfold Diagnostic.ofFinding
  cases f.problem <;> rfl

namespace Analyzer

/-- Whether a type of a document has a finding. -/
def HasFinding (settings : DiagnosticSettings) (model : Model) (uri : String) : Prop :=
  ∃ ids, model.typesInDocument uri = .ok ids ∧ ∃ id ∈ ids, ∃ found,
    Fallback.findings model settings.fallbackSignature id = .ok found ∧ found ≠ []

section document
variable {settings : DiagnosticSettings} {format : DocumentFormat} {model : Model} {uri : String}
  {found : List Diagnostic}

theorem mem_typeDiagnostics {id : Nat} {d : Diagnostic} :
    d ∈ typeDiagnostics settings format model id ↔
      ∃ found, Fallback.findings model settings.fallbackSignature id = .ok found ∧
        ∃ f ∈ found, Diagnostic.ofFinding format f = d := by
  unfold typeDiagnostics
  cases Fallback.findings model settings.fallbackSignature id <;> simp

theorem severity_of_mem_documentDiagnostics
    (h : documentDiagnostics settings format model uri = .ok found) {d : Diagnostic}
    (hd : d ∈ found) : d.severity = .error := by
  obtain ⟨_, _, _, _, hd⟩ := exists_of_mem_documentDiagnostics h hd
  obtain ⟨_, _, f, _, rfl⟩ := mem_typeDiagnostics.mp hd
  exact Diagnostic.severity_ofFinding format f

theorem documentDiagnostics_ne_nil_iff
    (h : documentDiagnostics settings format model uri = .ok found) :
    found ≠ [] ↔ settings.enabled = true ∧ HasFinding settings model uri := by
  constructor
  · intro hne
    obtain ⟨d, hd⟩ := List.exists_mem_of_ne_nil found hne
    have henabled : settings.enabled = true := by
      by_contra hoff
      rw [documentDiagnostics, if_neg hoff] at h
      cases h
      cases hd
    obtain ⟨ids, hids, id, hid, hd⟩ := exists_of_mem_documentDiagnostics h hd
    obtain ⟨all, hall, f, hf, -⟩ := mem_typeDiagnostics.mp hd
    exact ⟨henabled, ids, hids, id, hid, all, hall, List.ne_nil_of_mem hf⟩
  · rintro ⟨henabled, ids, hids, id, hid, all, hall, hne⟩
    obtain ⟨f, hf⟩ := List.exists_mem_of_ne_nil all hne
    rw [documentDiagnostics, if_pos henabled, hids] at h
    cases h
    exact List.ne_nil_of_mem (List.mem_flatMap.mpr ⟨id, hid, mem_typeDiagnostics.mpr ⟨all, hall, f, hf, rfl⟩⟩)

end document
end Analyzer

namespace CommandLine
open Analyzer

/-! ## Listings -/

/-- Whether files with diagnostics are a project's sources, in the order of their documents, each with
what the analysis of its document gives. -/
structure IsListing (settings : Settings) (format : Option DocumentFormat) (p : Project)
    (listing : List (SourceFile × List Diagnostic)) : Prop where
  files : (listing.map Prod.fst).Perm p.sources
  sorted : listing.Pairwise fun a b => a.1.uri < b.1.uri
  found : ∀ f ds, (f, ds) ∈ listing →
    documentDiagnostics settings.diagnostics (formatOf settings format) p.toModel f.uri = .ok ds

/-- The report on a listing. -/
def reportOn (p : Project) (listing : List (SourceFile × List Diagnostic)) : DiagnosticsReport :=
  ⟨p, listing.map fun (f, ds) => (f.uri, ds)⟩

/-- The line for an error in a file. Lines and columns count from one. -/
def errorLine (f : SourceFile) (d : Diagnostic) : String :=
  f.location.path ++ ":" ++ toString (d.range.start.line + 1) ++ ":" ++
    toString (d.range.start.character + 1) ++ ": error[" ++ d.code.text ++ "] " ++ d.message

/-- The last line, after so many errors. -/
def summaryLine (errors : Nat) : String := "summary: " ++ toString errors ++ " errors, 0 warnings"

variable {settings : Settings} {format : Option DocumentFormat} {p : Project}
  {listing : List (SourceFile × List Diagnostic)}

def SourceFile.precedes (f g : SourceFile) : Bool := f.uri ≤ g.uri

/-- The sources of a project in the order of their documents. -/
def sortedSources (p : Project) : List SourceFile := p.sources.mergeSort SourceFile.precedes

theorem sortedSources_perm (p : Project) : (sortedSources p).Perm p.sources := List.mergeSort_perm ..

theorem pairwise_sortedSources (hdistinct : p.uris.Nodup) :
    (sortedSources p).Pairwise fun f g => f.uri < g.uri := by
  have hle : (sortedSources p).Pairwise fun f g => f.uri ≤ g.uri := by
    have htrans : ∀ f g h : SourceFile, f.precedes g → g.precedes h → f.precedes h := by
      simp only [SourceFile.precedes, decide_eq_true_eq]
      exact fun f g h => le_trans
    have htotal : ∀ f g : SourceFile, (f.precedes g || g.precedes f) = true := by
      simp only [SourceFile.precedes, Bool.or_eq_true, decide_eq_true_eq]
      exact fun f g => le_total f.uri g.uri
    exact (List.pairwise_mergeSort htrans htotal p.sources).imp of_decide_eq_true
  have hne : (sortedSources p).Pairwise fun f g => f.uri ≠ g.uri :=
    List.pairwise_map.mp (((sortedSources_perm p).map SourceFile.uri).nodup_iff.mpr hdistinct)
  exact hle.imp₂ (fun _ _ => lt_of_le_of_ne) hne

theorem answers_toModel (p : Project) (uri : String) : Answers p.toModel uri :=
  fun _ h => ⟨uri, MemoryModel.typesInDocument_ofSources_eq_error h⟩

/-- A request for the documents of a project gives the entries of a listing. -/
theorem exists_listing (settings : Settings) (format : Option DocumentFormat)
    (hdistinct : p.uris.Nodup) :
    ∃ listing, IsListing settings format p listing ∧
      diagnostics settings p.toModel p.uris format = .ok (reportOn p listing).entries := by
  let shown (f : SourceFile) :=
    shownIn settings.diagnostics (formatOf settings format) p.toModel f.uri
  have hsorted := pairwise_sortedSources hdistinct
  refine ⟨(sortedSources p).map fun f => (f, shown f), ⟨?_, ?_, ?_⟩, ?_⟩
  · rw [List.map_map]
    exact (List.map_id _).symm ▸ sortedSources_perm p
  · exact List.pairwise_map.mpr hsorted
  · intro f ds hmem
    obtain ⟨_, _, he⟩ := List.mem_map.mp hmem
    cases he
    exact documentDiagnostics_eq_ok_iff.mpr ⟨fun _ => answers_toModel p _, rfl⟩
  · have hentries : (reportOn p ((sortedSources p).map fun f => (f, shown f))).entries =
        (sortedSources p).map fun f => (f.uri, shown f) := List.map_map ..
    rw [hentries]
    refine diagnostics_eq_ok_iff.mpr ⟨fun _ uri _ => answers_toModel p uri,
      List.pairwise_map.mpr hsorted, ?_⟩
    intro uri found
    simp only [List.mem_map, Prod.mk.injEq, (sortedSources_perm p).mem_iff, Project.uris]
    constructor
    · rintro ⟨f, hf, rfl, rfl⟩
      exact ⟨⟨f, hf, rfl⟩, rfl⟩
    · rintro ⟨⟨f, hf, rfl⟩, rfl⟩
      exact ⟨f, hf, rfl, rfl⟩

theorem all_reportOn : (reportOn p listing).all = listing.flatMap Prod.snd := by
  rw [DiagnosticsReport.all, reportOn, List.flatMap_map]

namespace IsListing

theorem mem_sources (h : IsListing settings format p listing) {f : SourceFile}
    {ds : List Diagnostic} (hmem : (f, ds) ∈ listing) : f ∈ p.sources :=
  h.files.mem_iff.mp (List.mem_map_of_mem hmem)

theorem exists_mem (h : IsListing settings format p listing) {f : SourceFile} (hf : f ∈ p.sources) :
    ∃ ds, (f, ds) ∈ listing := by
  obtain ⟨⟨_, ds⟩, hmem, rfl⟩ := List.mem_map.mp (h.files.mem_iff.mpr hf)
  exact ⟨ds, hmem⟩

theorem severity (h : IsListing settings format p listing) :
    ∀ d ∈ (reportOn p listing).all, d.severity = .error := by
  intro d hd
  rw [all_reportOn] at hd
  obtain ⟨⟨f, ds⟩, hmem, hd⟩ := List.mem_flatMap.mp hd
  exact severity_of_mem_documentDiagnostics (h.found f ds hmem) hd

theorem count_error (h : IsListing settings format p listing) :
    (reportOn p listing).count .error = (listing.flatMap Prod.snd).length := by
  rw [← all_reportOn (p := p)]
  exact List.countP_eq_length.mpr fun d hd => beq_iff_eq.mpr (h.severity d hd)

theorem count_warning (h : IsListing settings format p listing) :
    (reportOn p listing).count .warning = 0 := by
  refine List.countP_eq_zero.mpr fun d hd => ?_
  rw [h.severity d hd]
  decide

theorem exitCode_eq (h : IsListing settings format p listing) :
    (reportOn p listing).exitCode = if listing.flatMap Prod.snd = [] then 0 else 1 := by
  rw [DiagnosticsReport.exitCode, h.count_error]
  cases listing.flatMap Prod.snd <;> rfl

/-- Nothing is listed when diagnostics are off, or else when no document has a finding. -/
theorem flatMap_eq_nil_iff (h : IsListing settings format p listing) :
    listing.flatMap Prod.snd = [] ↔ settings.diagnostics.enabled = false ∨
      ∀ f ∈ p.sources, ¬HasFinding settings.diagnostics p.toModel f.uri := by
  have hempty (f : SourceFile) (ds : List Diagnostic) (hmem : (f, ds) ∈ listing) :
      ds = [] ↔ settings.diagnostics.enabled = false ∨
        ¬HasFinding settings.diagnostics p.toModel f.uri := by
    rw [← not_iff_not, ← ne_eq, documentDiagnostics_ne_nil_iff (h.found f ds hmem), not_or, not_not,
      Bool.not_eq_false]
  rw [List.flatMap_eq_nil_iff]
  constructor
  · intro hall
    refine or_iff_not_imp_left.mpr fun henabled f hf => ?_
    obtain ⟨ds, hmem⟩ := h.exists_mem hf
    exact ((hempty f ds hmem).mp (hall (f, ds) hmem)).resolve_left henabled
  · rintro hnone ⟨f, ds⟩ hmem
    exact (hempty f ds hmem).mpr (hnone.imp_right fun hfree => hfree f (h.mem_sources hmem))

theorem lines_eq (h : IsListing settings format p listing) (hdistinct : p.uris.Nodup) :
    ((reportOn p listing).entries.flatMap fun (uri, ds) =>
        ds.map (DiagnosticsReport.line (p.pathOf uri))) =
      listing.flatMap fun (f, ds) => ds.map (errorLine f) := by
  rw [reportOn, List.flatMap_map]
  refine List.flatMap_congr fun ⟨f, ds⟩ hmem => List.map_congr_left fun d hd => ?_
  have hseverity := severity_of_mem_documentDiagnostics (h.found f ds hmem) hd
  simp only [DiagnosticsReport.line, errorLine, hseverity, severityWord, String.append_assoc,
    Project.pathOf_uri hdistinct (h.mem_sources hmem)]
  rfl

theorem text_eq (h : IsListing settings format p listing) (hdistinct : p.uris.Nodup) :
    (reportOn p listing).text = unlines ((listing.flatMap fun (f, ds) => ds.map (errorLine f)) ++
      [summaryLine (listing.flatMap Prod.snd).length]) := by
  have hsummary (n : Nat) : "summary: " ++ toString n ++ " errors, " ++ toString 0 ++ " warnings" =
      summaryLine n := by
    simp only [summaryLine, String.append_assoc]
    rfl
  rw [← h.lines_eq hdistinct, DiagnosticsReport.text, h.count_error, h.count_warning, hsummary]
  rfl

end IsListing

/-! ## Runs -/

/-- The diagnostics command reads every Java file of its project, asks for just the documents that the
model knows, and reports all that is found there. The exit code says whether that is anything. -/
theorem run_diagnostics {fs : FileSystem} {arguments : List String} {r : Request}
    {format : Option DocumentFormat} {settings : Settings} {l : Location}
    (hrequest : Invocation.parse arguments = some (.request r))
    (htask : r.task = .diagnostics format) (hsettings : settingsFor fs r = .ok settings)
    (hpath : fs.resolve r.path = .ok l)
    (hreadable : ∀ f ∈ (Project.filesAt fs l).2, ∃ text, fs.readAt f = .ok text)
    (hdistinct : ((Project.filesAt fs l).2.map Location.uri).Nodup) :
    ∃ p listing, Project.read fs r.path [] = .ok p ∧
      ReadFrom fs (Project.filesAt fs l).2 p.sources ∧
      (∀ uri, (∃ ids, p.toModel.typesInDocument uri = .ok ids) ↔ uri ∈ p.uris) ∧
      diagnostics settings p.toModel p.uris format = .ok (reportOn p listing).entries ∧
      IsListing settings format p listing ∧
      (reportOn p listing).count .error = (listing.flatMap Prod.snd).length ∧
      (reportOn p listing).count .warning = 0 ∧
      (reportOn p listing).text = unlines ((listing.flatMap fun (f, ds) => ds.map (errorLine f)) ++
        [summaryLine (listing.flatMap Prod.snd).length]) ∧
      run fs arguments = .ok ⟨if listing.flatMap Prod.snd = [] then 0 else 1,
        if r.json then jsonText (reportOn p listing).toData else (reportOn p listing).text⟩ ∧
      (listing.flatMap Prod.snd = [] ↔ settings.diagnostics.enabled = false ∨
        ∀ f ∈ p.sources, ¬HasFinding settings.diagnostics p.toModel f.uri) := by
  obtain ⟨p, hread, -, hfiles⟩ := Project.read_eq_ok hpath hreadable
  rw [← Project.uris_of_readFrom hfiles] at hdistinct
  obtain ⟨listing, hlisting, hentries⟩ := exists_listing settings format hdistinct
  refine ⟨p, listing, hread, hfiles, fun _ => Project.known_iff, hentries, hlisting,
    hlisting.count_error, hlisting.count_warning, hlisting.text_eq hdistinct,
    ?_, hlisting.flatMap_eq_nil_iff⟩
  have hreport : diagnosticsOf fs settings r.path format = .ok (reportOn p listing) := by
    unfold diagnosticsOf
    rw [hread]
    change ((diagnostics settings p.toModel p.uris format).mapError Failure.analysis).bind _ = _
    rw [hentries]
    rfl
  rw [run, hrequest, ← hlisting.exitCode_eq]
  unfold answer
  simp only [hsettings, htask]
  change (diagnosticsOf fs settings r.path format).bind _ = _
  rw [hreport]
  rfl

/-- A source with a reference to no method, behind characters of two UTF-16 units. -/
def basketSource : SourceFile where
  location := ["p", "Basket.java"]
  text := "class Basket \x7b\n" ++
    "  /* 𝒳 */ @Fallback(fallbackMethod = \"gone\") void pay() \x7b\x7d\n\x7d\n"

/-- A source without types. -/
def notesSource : SourceFile where
  location := ["p", "Notes.java"]
  text := "// No types yet.\n"

/-- A project's directory, beside the settings. -/
def shopFiles : FileSystem where
  root := .directory [
    ("c", .file (some "[logging]\njson = true\n")),
    ("p", .directory [
      ("Basket.java", .file (some basketSource.text)),
      ("Notes.java", .file (some notesSource.text))])]
  workingDirectory := []

def shopSettings : Settings := { logging := { json := true } }

theorem resolve_shop {name : String} (h : name ∈ ["c", "p"]) :
    shopFiles.resolve name = .ok [name] := by
  have hsegments : segments name = [name] := by
    rw [segments, String.splitOn, if_neg (by decide)]
    -- one step over the only character, and one at the end
    unfold String.splitOnAux
    rw [if_neg (by revert name; decide +kernel), if_neg (by revert name; decide +kernel)]
    unfold String.splitOnAux
    rw [if_pos (by revert name; decide +kernel)]
    revert name
    decide +kernel
  rw [FileSystem.resolve, hsegments]
  rcases List.mem_pair.mp h with rfl | rfl <;> rfl

theorem settingsFor_shop (json : Bool) (task : Task) :
    settingsFor shopFiles ⟨"p", some "c", json, task⟩ = .ok shopSettings := by
  have htext : shopFiles.readText "c" = .ok "[logging]\njson = true\n" := by
    simp only [FileSystem.readText, FileSystem.find, resolve_shop (List.mem_cons_self)]
    rfl
  have hparse : Settings.parse "[logging]\njson = true\n" = .ok shopSettings := by
    have heval : (Settings.parse "[logging]\njson = true\n").toOption = some shopSettings := by
      decide +kernel
    cases h : Settings.parse "[logging]\njson = true\n" with
    | error e =>
      rw [h] at heval
      cases heval
    | ok settings =>
      rw [h] at heval
      exact congrArg Except.ok (Option.some.inj heval)
  simp only [settingsFor, readSettings, htext, hparse]
  rfl

def shopProject : Project := ⟨["p"], [basketSource, notesSource], []⟩

theorem filesAt_shop : Project.filesAt shopFiles ["p"] =
    (shopProject.root, shopProject.sources.map SourceFile.location) := by
  change (_, (List.mergeSort _ _).flatMap _) = _
  rw [List.mergeSort_of_pairwise (by decide)]
  rfl

theorem run_diagnostics_shop :
    ((Project.filesAt shopFiles ["p"]).2.map Location.uri).Nodup ∧
      run shopFiles ["--config", "c", "diagnostics", "p"] =
        .ok ⟨1, "/p/Basket.java:2:39: error[FALLBACK_METHOD_DOES_NOT_EXIST] " ++
          "The referenced fallback method 'gone' does not exist\n" ++
          "summary: 1 errors, 0 warnings\n"⟩ := by
  have hdistinct : ((Project.filesAt shopFiles ["p"]).2.map Location.uri).Nodup := by
    rw [filesAt_shop]
    decide
  have hreadable : ∀ f ∈ (Project.filesAt shopFiles ["p"]).2, ∃ text,
      shopFiles.readAt f = .ok text := by
    rw [filesAt_shop]
    exact List.forall_mem_map.mpr
      (List.forall_mem_cons.mpr ⟨⟨_, rfl⟩, List.forall_mem_singleton.mpr ⟨_, rfl⟩⟩)
  have hresolve : shopFiles.resolve "p" = .ok ["p"] := resolve_shop (by decide)
  have hrequest : Invocation.parse ["--config", "c", "diagnostics", "p"] =
      some (.request ⟨"p", some "c", false, .diagnostics none⟩) := rfl
  obtain ⟨p, listing, hread, -, -, hentries, hlisting, -, -, -, hrun, -⟩ :=
    run_diagnostics hrequest rfl (settingsFor_shop false _) hresolve hreadable hdistinct
  have hp : Project.read shopFiles "p" [] = .ok shopProject := by
    unfold Project.read
    rw [hresolve]
    change (SourceFile.readAll shopFiles (Project.filesAt shopFiles ["p"]).2).bind _ = _
    rw [filesAt_shop]
    rfl
  obtain rfl : p = shopProject := Except.ok.inj (hread.symm.trans hp)
  have heval : (diagnostics shopSettings shopProject.toModel shopProject.uris none).toOption.map
      (fun entries => let report : DiagnosticsReport := ⟨shopProject, entries⟩
        (report.exitCode, report.text)) =
      some (1, "/p/Basket.java:2:39: error[FALLBACK_METHOD_DOES_NOT_EXIST] " ++
        "The referenced fallback method 'gone' does not exist\nsummary: 1 errors, 0 warnings\n") := by
    decide +kernel
  rw [hentries] at heval
  obtain ⟨hexit, htext⟩ := Prod.mk.inj (Option.some.inj heval)
  refine ⟨hdistinct, hrun.trans ?_⟩
  rw [← hlisting.exitCode_eq]
  exact congrArg Except.ok (congrArg₂ Outcome.mk hexit htext)

end CommandLine
end FaultTolerance
