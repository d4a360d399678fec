import FaultTolerance.Proofs.Analysis.Pointwise
import Mathlib.Algebra.BigOperators.Group.List.Basic

/-! A field is no policy target, but a reference to a fallback method may stand on one. There it is
reported like any other when the method is missing (`Dangles`), and its signature is never looked at.
So the diagnostics of a type are those of its policies and then those of its fields, and of the fields
nothing counts but their dangling references (`fields_only_dangle`). -/
namespace FaultTolerance
open Java
set_option autoImplicit false

namespace Fallback

/-! ## References on fields -/

/-- What is reported of an occurrence that refers to a missing method. -/
inductive Dangles (model : Model) (methods : List Method) (o : Occurrence) : Finding → Prop
  | of {member : Member} {name : String}
      (hfallback : Catalog.resolve? o.annotation = some Catalog.fallback)
      (hmember : o.annotation.member? "fallbackMethod" = some member)
      (hvalue : member.value = .string name) (hname : name ≠ "")
      (hmissing : ∀ m ∈ methods, m.name ≠ name) :
      Dangles model methods o
        ⟨((model.rangeOf member).orElse fun _ => o.annotation.range).getD default,
          .missingMethod name⟩

section fields
variable {model : Model} {checkSignatures : Bool} {t : JavaType} {methods : List Method}
  {o : Occurrence} {f : Finding}

theorem flags_field_iff {field : Field} (h : o.target = .field field) :
    Flags model checkSignatures methods o f ↔ Dangles model methods o f := by
  constructor
  · rintro ⟨hfallback, hmember, hvalue, hname, hverdict⟩
    cases hverdict with
    | missing hmissing => exact .of hfallback hmember hvalue hname hmissing
    | incompatible _ htarget _ _ =>
      rw [h] at htarget
      cases htarget
  · rintro ⟨hfallback, hmember, hvalue, hname, hmissing⟩
    exact .of hfallback hmember hvalue hname (.missing hmissing)

theorem finding?_eq_some_of_field (ho : o ∈ fieldOccurrences model t) :
    finding? model checkSignatures methods o = some f ↔ Dangles model methods o f := by
  obtain ⟨field, _, ho⟩ := List.mem_flatMap.mp ho
  obtain ⟨_, htarget, _, hspec⟩ := Occurrence.mem_among.mp ho
  rw [finding?_eq_some hspec, flags_field_iff htarget]

theorem finding?_eq_finding?_of_field (ho : o ∈ fieldOccurrences model t) :
    finding? model checkSignatures methods o = finding? model false methods o := by
  apply Option.ext
  intro f
  rw [finding?_eq_some_of_field ho, finding?_eq_some_of_field ho]

end fields

/-- What is found on the fields of a type, whether signatures are checked or not. -/
def danglingOnFields (model : Model) (id : Nat) : List Finding :=
  (model.readable? id).toList.flatMap fun (t, methods) =>
    (fieldOccurrences model t).filterMap (finding? model false methods)

theorem reports_danglingOnFields {model : Model} {id : Nat} {t : JavaType} {methods : List Method}
    (h : model.readable? id = some (t, methods)) :
    Reports (Dangles model methods) (fieldOccurrences model t) (danglingOnFields model id) := by
  have hfound : danglingOnFields model id =
      (fieldOccurrences model t).filterMap (finding? model false methods) := by
    simp [danglingOnFields, h]
  rw [hfound]
  exact reports_filterMap fun o ho f => finding?_eq_some_of_field ho

theorem missing_of_mem_danglingOnFields {model : Model} {id : Nat} {f : Finding}
    (h : f ∈ danglingOnFields model id) : ∃ name, f.problem = .missingMethod name := by
  obtain ⟨⟨t, methods⟩, _, h⟩ := List.mem_flatMap.mp h
  obtain ⟨o, ho, hf⟩ := List.mem_filterMap.mp h
  cases (finding?_eq_some_of_field ho).mp hf
  exact ⟨_, rfl⟩

/-- What is found in an annotated element does not depend on the fields of the type it is in. -/
theorem filterMap_finding?_among {model model' : Model} (hrange : model'.rangeOf = model.rangeOf)
    (checkSignatures : Bool) (methods : List Method) (t t' : JavaType) (target : Target)
    (annotations : List Annotation) :
    (Occurrence.among t' target annotations).filterMap (finding? model' checkSignatures methods) =
      (Occurrence.among t target annotations).filterMap (finding? model checkSignatures methods) := by
  unfold Occurrence.among
  rw [List.filterMap_filterMap, List.filterMap_filterMap]
  apply List.filterMap_congr
  intro a _
  cases Catalog.resolve? a with
  | none => rfl
  | some spec => simp only [Option.map_some, Option.bind_some, finding?, hrange]

end Fallback

/-! ## Models that differ in fields -/

/-- Whether two models show the same of a type and its methods. -/
def Model.SameBesidesFields (model model' : Model) :
    JavaType × List Method → JavaType × List Method → Prop
  | (t, methods), (t', methods') =>
    methods' = methods ∧ model'.annotationsOn (.type t') = model.annotationsOn (.type t) ∧
      ∀ m ∈ methods, model'.annotationsOn (.method t' m) = model.annotationsOn (.method t m)

/-- Whether two models agree but for the fields of the types and the annotations on them. -/
structure Model.AgreesBesidesFields (model model' : Model) : Prop where
  documents : model'.typesInDocument = model.typesInDocument
  ranges : model'.rangeOf = model.rangeOf
  types : ∀ id, Option.Rel (model.SameBesidesFields model') (model.readable? id)
    (model'.readable? id)

namespace Analyzer
open Fallback

/-- The diagnostics on a type and its methods. -/
def policyDiagnostics (settings : DiagnosticSettings) (format : DocumentFormat) (model : Model)
    (id : Nat) : List Diagnostic :=
  (model.readable? id).toList.flatMap fun (t, methods) =>
    ((policyOccurrences model t methods).filterMap
      (finding? model settings.fallbackSignature methods)).map (Diagnostic.ofFinding format)

section types
variable {settings : DiagnosticSettings} {format : DocumentFormat} {model model' : Model}

theorem typeDiagnostics_eq_append (id : Nat) :
    typeDiagnostics settings format model id =
      policyDiagnostics settings format model id ++
        (danglingOnFields model id).map (Diagnostic.ofFinding format) := by
  rw [typeDiagnostics_eq]
  unfold policyDiagnostics danglingOnFields
  cases model.readable? id with
  | none => rfl
  | some read =>
    obtain ⟨t, methods⟩ := read
    have hsplit : Occurrence.ofType model t methods =
        policyOccurrences model t methods ++ fieldOccurrences model t := rfl
    have hfields : (fieldOccurrences model t).filterMap
        (finding? model settings.fallbackSignature methods) =
          (fieldOccurrences model t).filterMap (finding? model false methods) :=
      List.filterMap_congr fun o ho => finding?_eq_finding?_of_field ho
    simp only [Option.toList_some, List.flatMap_singleton, shownFor, hsplit,
      List.filterMap_append, hfields, List.map_append]

theorem policyDiagnostics_congr (h : model.AgreesBesidesFields model') (id : Nat) :
    policyDiagnostics settings format model' id = policyDiagnostics settings format model id := by
  have htypes := h.types id
  unfold policyDiagnostics
  generalize model.readable? id = read, model'.readable? id = read' at htypes ⊢
  cases htypes with
  | none => rfl
  | @some read read' hsame =>
    obtain ⟨t, methods⟩ := read
    obtain ⟨t', methods'⟩ := read'
    obtain ⟨rfl, htype, hmethods⟩ := hsame
    -- The occurrences differ, since each carries its type with all fields; the findings do not.
    have hmethod : ∀ m ∈ methods',
        (Occurrence.among t' (.method m) (model'.annotationsOn (.method t' m))).filterMap
            (finding? model' settings.fallbackSignature methods') =
          (Occurrence.among t (.method m) (model.annotationsOn (.method t m))).filterMap
            (finding? model settings.fallbackSignature methods') := by
      intro m hm
      rw [hmethods m hm, filterMap_finding?_among h.ranges _ _ t]
    simp only [Option.toList_some, List.flatMap_singleton, policyOccurrences,
      List.filterMap_append, List.filterMap_flatMap]
    rw [htype, filterMap_finding?_among h.ranges _ _ t, List.flatMap_congr hmethod]

-- A message about a signature does not tell where the name ends, so this is for missing methods only.
theorem eq_of_ofFinding_eq {f f' : Finding} {name name' : String}
    (hf : f.problem = .missingMethod name) (hf' : f'.problem = .missingMethod name')
    (h : Diagnostic.ofFinding format f = Diagnostic.ofFinding format f') : f = f' := by
  obtain ⟨range, problem⟩ := f
  obtain ⟨range', problem'⟩ := f'
  obtain rfl : problem = .missingMethod name := hf
  obtain rfl : problem' = .missingMethod name' := hf'
  simp only [Diagnostic.ofFinding, Diagnostic.error, Diagnostic.mk.injEq] at h
  obtain ⟨hrange, hmessage, _⟩ := h
  have hname : name = name' := by
    simpa [← String.toList_inj, String.toList_append] using hmessage
  rw [hrange, hname]

theorem map_ofFinding_dangling_inj {found found' : List Finding}
    (hfound : ∀ f ∈ found, ∃ name, f.problem = .missingMethod name)
    (hfound' : ∀ f ∈ found', ∃ name, f.problem = .missingMethod name)
    (h : found.map (Diagnostic.ofFinding format) = found'.map (Diagnostic.ofFinding format)) :
    found = found' := by
  induction found generalizing found' with
  | nil => exact (List.map_eq_nil_iff.mp h.symm).symm
  | cons f found ih =>
    cases found' with
    | nil => cases h
    | cons f' found' =>
      obtain ⟨hf, hrest⟩ := List.forall_mem_cons.mp hfound
      obtain ⟨hf', hrest'⟩ := List.forall_mem_cons.mp hfound'
      obtain ⟨name, hname⟩ := hf
      obtain ⟨name', hname'⟩ := hf'
      obtain ⟨hhead, htail⟩ := List.cons_eq_cons.mp h
      rw [eq_of_ofFinding_eq hname hname' hhead, ih hrest hrest' htail]

theorem typeDiagnostics_eq_iff (h : model.AgreesBesidesFields model') (id : Nat) :
    typeDiagnostics settings format model' id = typeDiagnostics settings format model id ↔
      danglingOnFields model' id = danglingOnFields model id := by
  rw [typeDiagnostics_eq_append, typeDiagnostics_eq_append, policyDiagnostics_congr h,
    List.append_cancel_left_eq]
  constructor
  · exact map_ofFinding_dangling_inj (fun f => missing_of_mem_danglingOnFields)
      fun f => missing_of_mem_danglingOnFields
  · exact congrArg _

end types

/-! ## Requests -/

/-- Whether the model lists the type among those of a document. -/
def InDocument (model : Model) (uri : String) (id : Nat) : Prop :=
  ∃ ids, model.typesInDocument uri = .ok ids ∧ id ∈ ids

theorem flatMap_append_eq_iff {α β : Type} (f g : α → List β) (xs : List α) :
    (xs.flatMap fun x => f x ++ g x) = xs.flatMap f ↔ ∀ x ∈ xs, g x = [] := by
  constructor
  · intro h
    -- What `g` adds may move into the part of the next element, but it adds to the length.
    have hlength : (xs.flatMap fun x => f x ++ g x).length =
        (xs.flatMap f).length + (xs.flatMap g).length := by
      simp only [List.length_flatMap, List.length_append, List.sum_map_add]
    have hnil : xs.flatMap g = [] := by
      rw [← List.length_eq_zero_iff]
      rw [h] at hlength
      omega
    exact List.flatMap_eq_nil_iff.mp hnil
  · intro h
    apply List.flatMap_congr
    intro x hx
    rw [h x hx, List.append_nil]

section requests
variable {settings : Settings} {format : Option DocumentFormat} {model model' : Model}

theorem documentDiagnostics_congr (h : model.AgreesBesidesFields model') {uri : String}
    (hfields : settings.diagnostics.enabled = true → ∀ id, InDocument model uri id →
      danglingOnFields model' id = danglingOnFields model id) :
    documentDiagnostics settings.diagnostics (formatOf settings format) model uri =
      documentDiagnostics settings.diagnostics (formatOf settings format) model' uri := by
  unfold documentDiagnostics
  by_cases henabled : settings.diagnostics.enabled = true
  · rw [if_pos henabled, if_pos henabled, h.documents]
    cases hids : model.typesInDocument uri with
    | error e => cases e <;> rfl
    | ok ids =>
      have htypes : ids.flatMap
            (typeDiagnostics settings.diagnostics (formatOf settings format) model) =
          ids.flatMap
            (typeDiagnostics settings.diagnostics (formatOf settings format) model') := by
        apply List.flatMap_congr
        intro id hid
        exact ((typeDiagnostics_eq_iff h id).mpr (hfields henabled id ⟨ids, hids, hid⟩)).symm
      simp only [htypes]
  · rw [if_neg henabled, if_neg henabled]

theorem diagnostics_eq_error_iff (h : model.AgreesBesidesFields model') (uris : List String)
    (e : AnalysisError) : diagnostics settings model uris format = .error e ↔
      diagnostics settings model' uris format = .error e := by
  have hboth : Both (Entrywise fun _ _ _ => True) (diagnostics settings model uris format)
      (diagnostics settings model' uris format) :=
    diagnostics_entrywise fun _ _ => documentDiagnostics_both rfl h.documents.symm trivial
  exact hboth.error_iff

theorem shownIn_eq_iff (h : model.AgreesBesidesFields model')
    (henabled : settings.diagnostics.enabled = true)
    (hclean : ∀ id, danglingOnFields model' id = []) (uri : String) :
    shownIn settings.diagnostics (formatOf settings format) model uri =
        shownIn settings.diagnostics (formatOf settings format) model' uri ↔
      ∀ id, InDocument model uri id → danglingOnFields model id = [] := by
  unfold shownIn readableTypes InDocument
  rw [if_pos henabled, if_pos henabled, h.documents]
  cases model.typesInDocument uri with
  | error e => simp
  | ok ids =>
    have hwith : ids.flatMap (typeDiagnostics settings.diagnostics (formatOf settings format) model) =
        ids.flatMap fun id =>
          policyDiagnostics settings.diagnostics (formatOf settings format) model id ++
            (danglingOnFields model id).map (Diagnostic.ofFinding (formatOf settings format)) :=
      List.flatMap_congr fun id _ => typeDiagnostics_eq_append id
    have hwithout :
        ids.flatMap (typeDiagnostics settings.diagnostics (formatOf settings format) model') =
          ids.flatMap (policyDiagnostics settings.diagnostics (formatOf settings format) model) := by
      apply List.flatMap_congr
      intro id _
      rw [typeDiagnostics_eq_append, hclean, List.map_nil, List.append_nil,
        policyDiagnostics_congr h]
    simp only [← flatMap_typeDiagnostics]
    rw [hwith, hwithout, flatMap_append_eq_iff]
    simp

theorem diagnostics_eq_iff_of_clean (h : model.AgreesBesidesFields model')
    (hclean : ∀ id, danglingOnFields model' id = []) (uris : List String)
    (entries : List (String × List Diagnostic))
    (hentries : diagnostics settings model uris format = .ok entries) :
    diagnostics settings model' uris format = .ok entries ↔
      (settings.diagnostics.enabled = true →
        ∀ uri ∈ uris, ∀ id, InDocument model uri id → danglingOnFields model id = []) := by
  constructor
  · intro hentries' henabled uri huri
    have hshown := ((diagnostics_eq_ok_iff.mp hentries).2.2 uri _).mpr ⟨huri, rfl⟩
    obtain ⟨_, hsame⟩ := ((diagnostics_eq_ok_iff.mp hentries').2.2 uri _).mp hshown
    exact (shownIn_eq_iff h henabled hclean uri).mp hsame
  · intro hfields
    rw [← hentries]
    symm
    apply diagnostics_congr
    intro uri huri
    apply documentDiagnostics_congr h
    intro henabled id hid
    rw [hclean, hfields henabled uri huri id hid]

/-- Fields and their annotations count for the diagnostics as far as they refer to missing methods:
the diagnostics of a type are those of its policies, and then one for each such reference. Requests
fail alike whatever the fields are, and are answered alike when the same references dangle; a request
answered as if there were no fields is one for documents in which no reference on a field dangles. -/
theorem fields_only_dangle (settings : Settings) (format : Option DocumentFormat)
    {model model' : Model} (h : model.AgreesBesidesFields model') :
    (∀ id, let shown := typeDiagnostics settings.diagnostics (formatOf settings format)
      shown model id =
          policyDiagnostics settings.diagnostics (formatOf settings format) model id ++
            (danglingOnFields model id).map (Diagnostic.ofFinding (formatOf settings format)) ∧
        shown model' id =
          policyDiagnostics settings.diagnostics (formatOf settings format) model id ++
            (danglingOnFields model' id).map (Diagnostic.ofFinding (formatOf settings format)) ∧
        (shown model' id = shown model id ↔
          danglingOnFields model' id = danglingOnFields model id)) ∧
    (∀ id t methods, model.readable? id = some (t, methods) →
      Reports (Dangles model methods) (fieldOccurrences model t) (danglingOnFields model id)) ∧
    (∀ uris e, diagnostics settings model uris format = .error e ↔
      diagnostics settings model' uris format = .error e) ∧
    (∀ uris, (∀ uri ∈ uris, ∀ id, InDocument model uri id →
        danglingOnFields model' id = danglingOnFields model id) →
      diagnostics settings model uris format = diagnostics settings model' uris format) ∧
    ((∀ id, danglingOnFields model' id = []) → ∀ uris entries,
      diagnostics settings model uris format = .ok entries →
        (diagnostics settings model' uris format = .ok entries ↔
          (settings.diagnostics.enabled = true → ∀ uri ∈ uris, ∀ id, InDocument model uri id →
            danglingOnFields model id = []))) := by
  refine ⟨?_, fun id t methods => reports_danglingOnFields, diagnostics_eq_error_iff h, ?_,
    diagnostics_eq_iff_of_clean h⟩
  · intro id
    refine ⟨typeDiagnostics_eq_append id, ?_, typeDiagnostics_eq_iff h id⟩
    rw [typeDiagnostics_eq_append, policyDiagnostics_congr h]
  · intro uris hfields
    apply diagnostics_congr
    intro uri huri
    exact documentDiagnostics_congr h fun _ => hfields uri huri

end requests

/-- A ledger whose cache is annotated. -/
def ledger (onCache : List Annotation) : JavaType where
  name := "org.acme.Ledger"
  kind := .classType
  origin := .source "file:///Ledger.java"
  methods := [
    { name := "post", returnType := "void", parameterTypes := [], annotations := [referTo "retry"] },
    { name := "recover", returnType := "int", parameterTypes := [] }]
  fields := [{ name := "cache", type := "int", annotations := onCache }]

def ledgers (onCache : List Annotation) : Model :=
  ((MemoryModel.named "ledgers").addType (ledger onCache)).2.toModel

theorem ledgers_agree (onCache onCache' : List Annotation) :
    (ledgers onCache).AgreesBesidesFields (ledgers onCache') where
  documents := rfl
  ranges := rfl
  types id := by
    cases id with
    | zero => exact .some ⟨rfl, rfl, fun _ _ => rfl⟩
    | succ id => exact .none

/-- A reference to a missing method is reported on a field, one to a method that is there is not. -/
theorem fields_only_dangle_ledgers :
    diagnostics {} (ledgers []) ["file:///Ledger.java"] none =
        diagnostics {} (ledgers [referTo "recover"]) ["file:///Ledger.java"] none ∧
      diagnostics {} (ledgers [referTo "gone"]) ["file:///Ledger.java"] none ≠
        diagnostics {} (ledgers []) ["file:///Ledger.java"] none := by
  have hnone : ∀ id, danglingOnFields (ledgers []) id = [] := by
    intro id
    cases id <;> rfl
  have hrecover : ∀ id, danglingOnFields (ledgers [referTo "recover"]) id = [] := by
    intro id
    cases id with
    | zero => decide +kernel
    | succ id => rfl
  have hgone : danglingOnFields (ledgers [referTo "gone"]) 0 ≠ [] := by decide +kernel
  obtain ⟨_, _, _, hsame, _⟩ :=
    fields_only_dangle {} none (ledgers_agree [] [referTo "recover"])
  obtain ⟨_, _, _, _, hiff⟩ := fields_only_dangle {} none (ledgers_agree [referTo "gone"] [])
  refine ⟨?_, ?_⟩
  · apply hsame
    intro uri _ id _
    rw [hnone, hrecover]
  · intro heq
    have henabled : ({} : Settings).diagnostics.enabled = true := rfl
    have hanswers : ∀ uri ∈ ["file:///Ledger.java"], Answers (ledgers [referTo "gone"]) uri := by
      intro uri huri cause hcause
      obtain rfl := List.mem_singleton.mp huri
      cases hcause
    obtain ⟨entries, hentries⟩ := exists_answer_iff.mpr fun _ => hanswers
    have hclean := (hiff hnone _ entries hentries).mp (heq ▸ hentries) henabled
      "file:///Ledger.java" (List.mem_singleton.mpr rfl) 0 ⟨[0], rfl, List.mem_singleton.mpr rfl⟩
    exact hgone hclean

end Analyzer
end FaultTolerance
