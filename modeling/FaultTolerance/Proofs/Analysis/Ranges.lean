import FaultTolerance.Proofs.Analysis.Requests
import FaultTolerance.Proofs.Fallback.Findings
import FaultTolerance.Proofs.Project.Documents
import FaultTolerance.Proofs.Source.Lexing

/-! What a diagnostic marks. In a project built from sources a finding has the range of the string
that its annotation gives for the fallback method (`reference_of_flags`), and that range, read as
positions in the document, holds just the token of this string (`diagnostics_mark_references`). -/
namespace FaultTolerance
open Java Source Text
set_option autoImplicit false

/-! ## References in a source -/

/-- Whether a source gives the string token `t` as the fallback method of an annotation: as the first
member of that name, behind the name and an equals sign. -/
def SourceUnit.RefersBy (u : SourceUnit) (known : List String) (t : Token) : Prop :=
  ∃ a ∈ u.outline.allAnnotations, ∃ key eq : Token,
    Catalog.resolve? (Setting.annotation (u.setting known) a) = some Catalog.fallback ∧
    a.argument? "fallbackMethod" = some ⟨some key, .expression [.leaf t]⟩ ∧
    key.text = "fallbackMethod" ∧ eq.isSymbol "=" = true ∧ t.kind = .string ∧
    [key, eq, t] <:+: tokens u.text.toList

theorem SourceUnit.RefersBy.mem_tokens {u : SourceUnit} {known : List String} {t : Token}
    (h : u.RefersBy known t) : t ∈ tokens u.text.toList := by
  obtain ⟨_, _, key, eq, _, _, _, _, _, hinfix⟩ := h
  exact hinfix.subset (by simp)

theorem SourceUnit.RefersBy.kind {u : SourceUnit} {known : List String} {t : Token}
    (h : u.RefersBy known t) : t.kind = .string := by
  obtain ⟨_, _, key, eq, _, _, _, _, hkind, _⟩ := h
  exact hkind

theorem annotations_subset_allAnnotations {t : JavaType} {target : Target} {a : Annotation}
    (h : target ∈ Occurrence.targets t t.methods) (ha : a ∈ (target.element t).annotations) :
    a ∈ t.allAnnotations := by
  cases target with
  | type => exact List.mem_append_left _ ha
  | method m =>
    have hm := Occurrence.method_mem_targets.mp h
    exact List.mem_append_right _ (List.mem_append_left _ (List.mem_flatMap.mpr ⟨m, hm, ha⟩))
  | field f =>
    have hf := Occurrence.field_mem_targets.mp h
    exact List.mem_append_right _ (List.mem_append_right _ (List.mem_flatMap.mpr ⟨f, hf, ha⟩))

theorem SourceUnit.annotation_of_mem_types {u : SourceUnit} {known : List String} {t : JavaType}
    {a : Annotation} (ht : t ∈ u.types known) (ha : a ∈ t.allAnnotations) :
    ∃ x ∈ u.outline.allAnnotations, a = Setting.annotation (u.setting known) x := by
  rw [u.types_eq_typesOfAll] at ht
  exact Setting.annotation_of_mem_typesOfAll ht ha

theorem reference_of_member? {u : SourceUnit} {known : List String} {t : JavaType}
    {a : Annotation} {member : Member} {name : String} (ht : t ∈ u.types known)
    (ha : a ∈ t.allAnnotations) (hfallback : Catalog.resolve? a = some Catalog.fallback)
    (hmember : a.member? "fallbackMethod" = some member) (hvalue : member.value = .string name) :
    ∃ token, u.RefersBy known token ∧ name = .ofList (Setting.unquoted token.text.toList) ∧
      member.range = some ((LineTable.ofText u.text.toList).range token.start token.stop) := by
  obtain ⟨x, hx, rfl⟩ := SourceUnit.annotation_of_mem_types ht ha
  obtain ⟨key, token, harg, hkey, hkind, hname, hrange⟩ :=
    Setting.argument_of_member? (by decide) hmember hvalue
  have hwritten : x.WrittenIn (tokens u.text.toList) := writtenIn_of_mem_outline hx
  obtain ⟨eq, _, heq, hinfix⟩ := hwritten.argument (List.mem_of_find?_eq_some harg)
  exact ⟨token, ⟨x, hx, key, eq, hfallback, harg, hkey, heq, hkind, hinfix⟩, hname, hrange⟩

/-! ## Diagnostics of a source -/

/-- Whether the message of a diagnostic quotes a name. -/
def Diagnostic.Names (d : Diagnostic) (name : String) : Prop :=
  d.message = "The referenced fallback method '" ++ name ++ "' does not exist" ∨
    ∃ expected, d.message = "The referenced fallback method '" ++ name ++
      "' has an incompatible signature; expected " ++ expected

theorem Diagnostic.names_ofFinding {checkSignatures : Bool} {methods : List Method}
    {target : Target} {name : String} {problem : Fallback.Problem}
    (h : Fallback.Verdict checkSignatures methods target name problem) (format : DocumentFormat)
    (range : Range) : (Diagnostic.ofFinding format ⟨range, problem⟩).Names name := by
  cases h with
  | missing => exact .inl rfl
  | incompatible => exact .inr ⟨_, rfl⟩

theorem Diagnostic.range_ofFinding (format : DocumentFormat) (f : Fallback.Finding) :
    (Diagnostic.ofFinding format f).range = f.range := by
  obtain ⟨range, problem⟩ := f
  cases problem <;> rfl

/-- Whether a diagnostic marks the token `t` of a source, a reference to the method that the message
names. Read as positions in the text of the source, its range leads to the token and holds nothing
else. -/
structure Diagnostic.Marks (d : Diagnostic) (u : SourceUnit) (known : List String) (t : Token)
    (name : String) : Prop where
  reference : u.RefersBy known t
  names : d.Names name
  contents : name = .ofList (Setting.unquoted t.text.toList)
  start : ∃ pre post, t.Between pre post u.text.toList ∧
    d.range.start.split? u.text.toList = some (pre, t.text.toList ++ post)
  slice : d.range.slice? u.text.toList = some t.text.toList
  quoted : isTextBlock t.text.toList = false →
    d.range.slice? u.text.toList = some ('"' :: name.toList ++ ['"'])

theorem Diagnostic.marks_of_range {d : Diagnostic} {u : SourceUnit} {known : List String}
    {t : Token} {name : String} (href : u.RefersBy known t) (hnames : d.Names name)
    (hname : name = .ofList (Setting.unquoted t.text.toList))
    (hrange : d.range = (LineTable.ofText u.text.toList).range t.start t.stop) :
    d.Marks u known t name := by
  have hquoted := isQuoted_of_mem_tokens href.mem_tokens href.kind
  obtain ⟨pre, post, hbetween⟩ := between_of_mem_tokens href.mem_tokens
  have hslice : d.range.slice? u.text.toList = some t.text.toList := by
    rw [hrange]
    exact hbetween.slice?_eq hquoted
  refine ⟨href, hnames, hname, ⟨pre, post, hbetween, ?_⟩, hslice, ?_⟩
  · rw [hrange]
    exact hbetween.split?_start hquoted
  · intro hblock
    rw [hslice, hname, String.toList_ofList, ← eq_unquoted_of_not_textBlock hquoted hblock]

namespace Analyzer

theorem marks_of_mem_typeDiagnostics {settings : DiagnosticSettings} {format : DocumentFormat}
    {m : MemoryModel} {id : Nat} {u : SourceUnit} {known : List String} {t : JavaType}
    (htype : m.toModel.type id = .ok t) (ht : t ∈ u.types known) {d : Diagnostic}
    (hd : d ∈ typeDiagnostics settings format m.toModel id) :
    ∃ token name, d.Marks u known token name := by
  have hmethods : m.toModel.methodsOf id = .ok t.methods := by
    change (m.toModel.type id).map JavaType.methods = _
    rw [htype]
    rfl
  rw [typeDiagnostics, Fallback.findings_of_readable htype hmethods] at hd
  obtain ⟨f, hf, rfl⟩ := List.mem_map.mp hd
  obtain ⟨o, ho, hfinding⟩ := List.mem_filterMap.mp hf
  obtain ⟨-, htarget, hannotation, hspec⟩ := Occurrence.mem_ofType.mp ho
  have ha := annotations_subset_allAnnotations htarget hannotation
  cases (Fallback.finding?_eq_some hspec).mp hfinding with
  | @of member name problem hfallback hmember hvalue _ hverdict =>
    obtain ⟨token, href, hname, hrange⟩ := reference_of_member? ht ha hfallback hmember hvalue
    refine ⟨token, name, Diagnostic.marks_of_range href
      (Diagnostic.names_ofFinding hverdict format _) hname ?_⟩
    rw [Diagnostic.range_ofFinding]
    change (member.range.orElse _).getD _ = _
    rw [hrange]
    rfl

theorem exists_of_mem_documentDiagnostics {settings : DiagnosticSettings} {format : DocumentFormat}
    {model : Model} {uri : String} {found : List Diagnostic} {d : Diagnostic}
    (h : documentDiagnostics settings format model uri = .ok found) (hd : d ∈ found) :
    ∃ ids, model.typesInDocument uri = .ok ids ∧
      ∃ id ∈ ids, d ∈ typeDiagnostics settings format model id := by
  unfold documentDiagnostics at h
  split at h
  · split at h
    · rename_i ids hids
      cases h
      exact ⟨ids, hids, List.mem_flatMap.mp hd⟩
    · cases h
      cases hd
    · cases h
  · cases h
    cases hd

theorem diagnostics_ofSources_succeed (settings : Settings) (project : String)
    (classpath : List String) (units : List SourceUnit) (uris : List String)
    (format : Option DocumentFormat) :
    ∃ entries, diagnostics settings (MemoryModel.ofSources project classpath units).toModel uris
      format = .ok entries := by
  cases h : diagnostics settings (MemoryModel.ofSources project classpath units).toModel uris
    format with
  | ok entries => exact ⟨entries, rfl⟩
  | error e =>
    obtain ⟨_, uri, _, cause, hcause, hknown⟩ :=
      (diagnostics_fails_iff settings _ uris format).mp ⟨e, h⟩
    exact absurd (MemoryModel.typesInDocument_ofSources_eq_error hcause) (hknown uri)

/-- A request for the diagnostics of a project built from sources of different names is answered, and
each diagnostic of a document marks the string that the document's source writes for the fallback
method. -/
theorem diagnostics_mark_references (settings : Settings) (project : String)
    (classpath : List String) (units : List SourceUnit) (uris : List String)
    (format : Option DocumentFormat) (hdistinct : (units.map (·.uri)).Nodup) :
    ∃ entries, diagnostics settings (MemoryModel.ofSources project classpath units).toModel uris
        format = .ok entries ∧
      ∀ uri found, (uri, found) ∈ entries → ∀ d ∈ found, ∃ u ∈ units, u.uri = uri ∧
        u.isDependency = false ∧ (∀ u' ∈ units, u'.uri = uri → u' = u) ∧
        ∃ t name, d.Marks u (knownNames classpath units) t name := by
  obtain ⟨entries, hentries⟩ :=
    diagnostics_ofSources_succeed settings project classpath units uris format
  refine ⟨entries, hentries, ?_⟩
  intro uri found hentry d hd
  have hdocument := documentDiagnostics_of_mem_diagnostics hentries hentry
  obtain ⟨ids, hids, id, hid, hdtype⟩ := exists_of_mem_documentDiagnostics hdocument hd
  obtain ⟨u, hu, huri, hsource, t, ht, htype⟩ := MemoryModel.type_of_mem_document hids hid
  refine ⟨u, hu, huri, hsource, ?_, marks_of_mem_typeDiagnostics htype ht hdtype⟩
  intro u' hu' huri'
  exact List.inj_on_of_nodup_map hdistinct hu' hu (huri'.trans huri.symm)

/-- A shop with a reference to no method, behind line ends of every kind, a tab and characters of two
UTF-16 units. -/
def shopUnit : SourceUnit where
  uri := "file:///Shop.java"
  text := "package org.acme; /* 𝒳 */\r\nimport org.bank.*; /* \r \n */\n" ++
    "class Shop \x7b\r\n\t/* 𝒳 */ @Fallback(applyOn = \x7b\x7d, fallbackMethod\n = \"gone\")" ++
    " String pay() \x7b return null; \x7d\n\x7d\n"

def bankUnit : SourceUnit where
  uri := "jar:///bank/Account.java"
  text := "package org.bank; class Account \x7b\x7d"
  isDependency := true

theorem diagnostics_mark_references_shop :
    ([shopUnit, bankUnit].map (·.uri)).Nodup ∧
      ∃ entries, diagnostics {} (MemoryModel.ofSources "shop" [] [shopUnit, bankUnit]).toModel
          [shopUnit.uri] none = .ok entries ∧
        entries.flatMap (fun e => e.2.map fun d => (d.message, d.range)) =
          [("The referenced fallback method 'gone' does not exist", ⟨⟨6, 3⟩, ⟨6, 9⟩⟩)] ∧
        ∀ found, (shopUnit.uri, found) ∈ entries → ∀ d ∈ found,
          ∃ t name, d.Marks shopUnit (knownNames [] [shopUnit, bankUnit]) t name := by
  have hdistinct : ([shopUnit, bankUnit].map (·.uri)).Nodup := by decide
  obtain ⟨entries, hentries, hmarks⟩ :=
    diagnostics_mark_references {} "shop" [] [shopUnit, bankUnit] [shopUnit.uri] none hdistinct
  refine ⟨hdistinct, entries, hentries, ?_, ?_⟩
  · have heval : (diagnostics {} (MemoryModel.ofSources "shop" [] [shopUnit, bankUnit]).toModel
        [shopUnit.uri] none).toOption.map (·.flatMap fun e => e.2.map fun d =>
          (d.message, d.range)) =
        some [("The referenced fallback method 'gone' does not exist", ⟨⟨6, 3⟩, ⟨6, 9⟩⟩)] := by
      decide +kernel
    rw [hentries] at heval
    exact Option.some.inj heval
  · intro found hfound d hd
    obtain ⟨u, _, _, _, honly, hmark⟩ := hmarks shopUnit.uri found hfound d hd
    obtain rfl := honly shopUnit List.mem_cons_self rfl
    exact hmark

end Analyzer
end FaultTolerance
