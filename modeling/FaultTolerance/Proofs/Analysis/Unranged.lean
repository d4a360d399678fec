import FaultTolerance.Model.Memory
import FaultTolerance.Proofs.Analysis.Requests
import FaultTolerance.Proofs.Fallback.Findings
import FaultTolerance.Proofs.Project.Alike

/-! What an analysis makes of ranges. A project whose types have no ranges has the same properties
(`properties_withoutRanges`), and its diagnostics are the same up to their own ranges
(`diagnostics_withoutRanges`): no step of an analysis asks where something stands, except to say where a
finding is. -/
namespace FaultTolerance
open Java
set_option autoImplicit false

/-! ## Without ranges -/

/-- The project with no range in its types. -/
def MemoryModel.withoutRanges (m : MemoryModel) : MemoryModel :=
  { m with types := m.types.map JavaType.withoutRanges }

theorem MemoryModel.reworded_id : reworded id = withoutRanges := by
  funext m
  rw [reworded, JavaType.reworded_id, withoutRanges]

def Target.withMembers (f : Member → Member) : Target → Target
  | .type => .type
  | .method m => .method (m.withMembers f)
  | .field x => .field (x.withMembers f)

/-- The occurrence with no range in it, and with the members of its annotations changed. -/
def Occurrence.withMembers (f : Member → Member) (o : Occurrence) : Occurrence :=
  { o with
    annotation := o.annotation.withMembers f
    declaringType := o.declaringType.withMembers f
    target := o.target.withMembers f }

def Target.withoutRanges : Target → Target
  | .type => .type
  | .method m => .method m.withoutRanges
  | .field f => .field f.withoutRanges

def Occurrence.withoutRanges (o : Occurrence) : Occurrence :=
  { o with
    annotation := o.annotation.withoutRanges
    declaringType := o.declaringType.withoutRanges
    target := o.target.withoutRanges }

theorem Occurrence.withMembers_withoutRange : withMembers Member.withoutRange = withoutRanges := by
  funext o
  obtain ⟨spec, a, t, target⟩ := o
  cases target <;> rfl

def Fallback.Finding.withoutRange (f : Fallback.Finding) : Fallback.Finding :=
  { f with range := default }

/-- The diagnostic at the start of its document. -/
def Diagnostic.withoutRange (d : Diagnostic) : Diagnostic := { d with range := default }

/-! ## Occurrences -/

section
variable (f : Member → Member)

theorem Occurrence.among_withMembers (t : JavaType) (target : Target)
    (annotations : List Annotation) :
    among (t.withMembers f) (target.withMembers f) (annotations.map ( Annotation.withMembers f)) =
      (among t target annotations).map (withMembers f) := by
  unfold among
  rw [List.filterMap_map, List.map_filterMap]
  congr 1
  funext a
  change (Catalog.resolve? a).map _ = ((Catalog.resolve? a).map _).map _
  rw [Option.map_map]
  rfl

theorem Occurrence.ofType_withMembers (m m' : MemoryModel) (t : JavaType) (methods : List Method) :
    ofType m'.toModel (t.withMembers f) (methods.map (Method.withMembers f)) =
      (ofType m.toModel t methods).map (withMembers f) := by
  unfold ofType
  simp only [List.map_append, List.map_flatMap, ← among_withMembers]
  simp only [JavaType.withMembers, List.flatMap_map]
  rfl

theorem typeAnnotation?_withMembers (m m' : MemoryModel) (t : JavaType) (spec : Catalog.Spec) :
    typeAnnotation? m'.toModel (t.withMembers f) spec =
      (typeAnnotation? m.toModel t spec).map ( Annotation.withMembers f) := by
  change (t.annotations.map _).find? _ = _
  rw [List.find?_map]
  rfl

theorem Java.Annotation.member?_withMembers (hname : ∀ x, (f x).name = x.name) (a : Annotation)
    (name : String) : (a.withMembers f).member? name = (a.member? name).map f := by
  unfold member?
  rw [withMembers, List.find?_map]
  simp only [Function.comp_def, hname]

end

/-! ## Types and their occurrences -/

section
variable (m : MemoryModel)

theorem MemoryModel.covered_withoutRanges (scope : Scope) (n : Nat) (ts : List JavaType) :
    covered scope n (ts.map JavaType.withoutRanges) = covered scope n ts := by
  induction ts generalizing n with
  | nil => rfl
  | cons t ts ih =>
    rw [List.map_cons, covered, covered, ih]
    rfl

theorem MemoryModel.resolveProject_withoutRanges (scope : Scope) :
    m.withoutRanges.toModel.resolveProject scope = m.toModel.resolveProject scope := by
  change m.withoutRanges.whenLoaded (.ok (covered scope 0 (m.types.map _))) = _
  rw [covered_withoutRanges]
  rfl

theorem MemoryModel.type_withoutRanges (id : Nat) :
    m.withoutRanges.type id = (m.type id).map JavaType.withoutRanges := by
  unfold MemoryModel.type whenLoaded
  simp only [withoutRanges, List.getElem?_map]
  cases m.loaded <;> cases m.types[id]? <;> rfl

theorem Occurrence.inType_withoutRanges (id : Nat) :
    inType m.withoutRanges.toModel id = (inType m.toModel id).map (·.map withoutRanges) := by
  change (m.withoutRanges.type id).bind (fun t =>
      ((m.withoutRanges.type id).map JavaType.methods).bind fun methods =>
        .ok (ofType m.withoutRanges.toModel t methods)) =
    ((m.type id).bind fun t => ((m.type id).map JavaType.methods).bind fun methods =>
      .ok (ofType m.toModel t methods)).map _
  rw [m.type_withoutRanges id]
  rw [← withMembers_withoutRange]
  cases m.type id with
  | error e => rfl
  | ok t => exact congrArg Except.ok (ofType_withMembers _ m m.withoutRanges t t.methods)

end

/-! ## Properties -/

theorem Java.Annotation.member?_withoutRanges (a : Annotation) (name : String) :
    a.withoutRanges.member? name = (a.member? name).map Member.withoutRange :=
  a.member?_withMembers Member.withoutRange (fun _ => rfl) name

theorem parameterValue?_withoutRanges (a : Option Annotation) (p : Catalog.Parameter) :
    parameterValue? (a.map Annotation.withoutRanges) p = parameterValue? a p := by
  cases a with
  | none => rfl
  | some a =>
    simp only [parameterValue?, Option.map_some, Option.bind_some, a.member?_withoutRanges]
    cases a.member? p.name <;> rfl

namespace Derivation

theorem addTier_withoutRanges (c : Collector) (spec : Catalog.Spec) (tier : Tier)
    (a : Option Annotation) :
    addTier c spec tier (a.map Annotation.withoutRanges) = addTier c spec tier a := by
  unfold addTier
  simp only [parameterValue?_withoutRanges]

theorem addTypeTier_withoutRanges (d : Derivation) (t : JavaType) (spec : Catalog.Spec)
    (a : Option Annotation) :
    d.addTypeTier t.withoutRanges spec (a.map Annotation.withoutRanges) = d.addTypeTier t spec a := by
  unfold addTypeTier
  rw [addTier_withoutRanges]
  rfl

variable (m : MemoryModel)

theorem typeAnnotation?_withoutRanges (t : JavaType) (spec : Catalog.Spec) :
    typeAnnotation? m.withoutRanges.toModel t.withoutRanges spec =
      (typeAnnotation? m.toModel t spec).map Annotation.withoutRanges :=
  typeAnnotation?_withMembers Member.withoutRange m m.withoutRanges t spec

theorem visit_withoutRanges (d : Derivation) (o : Occurrence) :
    d.visit m.withoutRanges.toModel o.withoutRanges = d.visit m.toModel o := by
  obtain ⟨spec, a, t, target⟩ := o
  have hown := fun (c : Collector) (tier : Tier) => addTier_withoutRanges c spec tier (some a)
  cases target with
  | type => exact (d.markUsed spec).addTypeTier_withoutRanges t spec (some a)
  | method method =>
    simp only [visit, Occurrence.withoutRanges, Target.withoutRanges,
      typeAnnotation?_withoutRanges, addTypeTier_withoutRanges]
    exact congrArg (fun c => { (d.markUsed spec).addTypeTier t spec _ with collected := c }) (hown ..)
  | field => rfl

theorem visitType_withoutRanges (d : Derivation) (id : Nat) :
    d.visitType m.withoutRanges.toModel id = d.visitType m.toModel id := by
  unfold visitType
  rw [Occurrence.inType_withoutRanges]
  cases Occurrence.inType m.toModel id with
  | error e => rfl
  | ok found =>
    change (found.map Occurrence.withoutRanges).foldl _ d = found.foldl _ d
    rw [List.foldl_map]
    congr 1
    funext d o
    exact d.visit_withoutRanges m o

end Derivation

/-- The properties of a project do not depend on the ranges in it. -/
theorem Analyzer.properties_withoutRanges (m : MemoryModel) (scope : Scope) :
    properties m.withoutRanges.toModel scope = properties m.toModel scope := by
  have hvisit : Derivation.visitType m.withoutRanges.toModel = Derivation.visitType m.toModel := by
    funext d id
    exact d.visitType_withoutRanges m id
  unfold properties projectProperties
  rw [hvisit, m.resolveProject_withoutRanges]

/-! ## Findings -/

namespace Fallback

theorem problem?_withoutRanges (check : Bool) (methods : List Method) (target : Target)
    (name : String) :
    problem? check (methods.map Method.withoutRanges) target.withoutRanges name =
      problem? check methods target name := by
  have hnamed : (methods.map Method.withoutRanges).filter (·.name == name) =
      (methods.filter (·.name == name)).map Method.withoutRanges := by
    rw [List.filter_map]
    rfl
  unfold problem?
  rw [hnamed]
  cases methods.filter (·.name == name) with
  | nil => cases target <;> rfl
  | cons candidate others => cases others <;> cases target <;> rfl

variable (m : MemoryModel)

theorem finding?_withoutRanges (check : Bool) (methods : List Method) (o : Occurrence) :
    finding? m.withoutRanges.toModel check (methods.map Method.withoutRanges) o.withoutRanges =
      (finding? m.toModel check methods o).map Finding.withoutRange := by
  simp only [finding?_eq, Occurrence.withoutRanges, Annotation.member?_withoutRanges,
    problem?_withoutRanges, apply_ite (Option.map Finding.withoutRange), Option.map_bind,
    Option.bind_map, Option.map_none, Function.comp_def, Option.map_map]
  rfl

theorem findings_withoutRanges (check : Bool) (id : Nat) :
    findings m.withoutRanges.toModel check id =
      (findings m.toModel check id).map (·.map Finding.withoutRange) := by
  have hmethods : m.withoutRanges.toModel.methodsOf id =
      (m.toModel.methodsOf id).map (·.map Method.withoutRanges) := by
    change (m.withoutRanges.type id).map _ = ((m.type id).map _).map _
    rw [m.type_withoutRanges]
    cases m.type id <;> rfl
  unfold findings
  rw [hmethods, Occurrence.inType_withoutRanges]
  cases m.toModel.methodsOf id with
  | error e => rfl
  | ok methods =>
    cases Occurrence.inType m.toModel id with
    | error e => rfl
    | ok found =>
      refine congrArg Except.ok ?_
      change (found.map _).filterMap _ = (found.filterMap _).map _
      rw [List.filterMap_map, List.map_filterMap]
      congr 1
      funext o
      exact finding?_withoutRanges m check methods o

end Fallback

/-! ## Diagnostics -/

namespace Analyzer

theorem typeDiagnostics_withoutRanges (settings : DiagnosticSettings) (format : DocumentFormat)
    (m : MemoryModel) (id : Nat) :
    typeDiagnostics settings format m.withoutRanges.toModel id =
      (typeDiagnostics settings format m.toModel id).map Diagnostic.withoutRange := by
  unfold typeDiagnostics
  rw [Fallback.findings_withoutRanges]
  cases Fallback.findings m.toModel settings.fallbackSignature id with
  | error e => rfl
  | ok found =>
    change (found.map _).map _ = (found.map _).map _
    rw [List.map_map, List.map_map]
    congr 1
    funext f
    obtain ⟨range, problem⟩ := f
    cases problem <;> rfl

theorem documentDiagnostics_withoutRanges (settings : DiagnosticSettings) (format : DocumentFormat)
    (m : MemoryModel) (uri : String) :
    documentDiagnostics settings format m.withoutRanges.toModel uri =
      (documentDiagnostics settings format m.toModel uri).map (·.map Diagnostic.withoutRange) := by
  unfold documentDiagnostics
  cases settings.enabled with
  | false => rfl
  | true =>
    have hlisted : m.withoutRanges.toModel.typesInDocument uri = m.toModel.typesInDocument uri := rfl
    rw [hlisted]
    cases m.toModel.typesInDocument uri with
    | error cause => cases cause <;> rfl
    | ok ids =>
      refine congrArg Except.ok ?_
      change _ = (ids.flatMap _).map _
      rw [List.map_flatMap]
      congr 1
      funext id
      exact typeDiagnostics_withoutRanges settings format m id

/-- The entries with their diagnostics at the start of each document. -/
def withoutRanges (entries : List (String × List Diagnostic)) : List (String × List Diagnostic) :=
  entries.map fun (uri, found) => (uri, found.map Diagnostic.withoutRange)

/-- The diagnostics of a project depend on the ranges in it only for their own ranges. -/
theorem diagnostics_withoutRanges (settings : Settings) (m : MemoryModel) (uris : List String)
    (format : Option DocumentFormat) :
    diagnostics settings m.withoutRanges.toModel uris format =
      (diagnostics settings m.toModel uris format).map withoutRanges := by
  refine Both.eq_map (diagnostics_entrywise ?_)
  intro uri _
  rw [documentDiagnostics_withoutRanges]
  exact both_map ..

end Analyzer
end FaultTolerance
