import FaultTolerance.Model.Memory
import FaultTolerance.Proofs.Analysis.Requests
import FaultTolerance.Proofs.Fallback.Findings

/-! Annotations that a host gives in place of the stored ones. A project under such a host answers
like a project that stores the host's annotations (`overrides_honoured`). Both go through the same
occurrences, up to the annotations stored in their types and methods (`Occurrence.stored`), and every
step of an analysis comes out the same on the two. -/
namespace FaultTolerance
open Java
set_option autoImplicit false

/-! ## Stored annotations -/

section stored
variable (overrides : Element → List Annotation)

namespace Java

def Method.stored (t : JavaType) (m : Method) : Method :=
  { m with annotations := overrides (.method t m) }

def Field.stored (t : JavaType) (f : Field) : Field :=
  { f with annotations := overrides (.field t f) }

def JavaType.stored (t : JavaType) : JavaType :=
  { t with
    annotations := overrides (.type t)
    methods := t.methods.map (Method.stored overrides t)
    fields := t.fields.map (Field.stored overrides t) }

end Java

namespace MemoryModel

/-- The project as a host shows it that has its own annotations for every element. -/
def overridden (m : MemoryModel) : Model := { m.toModel with annotationsOn := overrides }

/-- The project with the host's annotations stored in its types. -/
def stored (m : MemoryModel) : MemoryModel :=
  { m with types := m.types.map (JavaType.stored overrides) }

end MemoryModel

namespace Target

def stored (t : JavaType) : Target → Target
  | .type => .type
  | .method m => .method (m.stored overrides t)
  | .field f => .field (f.stored overrides t)

end Target

def Occurrence.stored (o : Occurrence) : Occurrence :=
  { o with
    declaringType := o.declaringType.stored overrides
    target := o.target.stored overrides o.declaringType }

end stored

/-! ## The answers of the two models -/

section answers
variable (overrides : Element → List Annotation) (m : MemoryModel)

theorem MemoryModel.covered_stored (scope : Scope) (n : Nat) (ts : List JavaType) :
    covered scope n (ts.map (JavaType.stored overrides)) = covered scope n ts := by
  induction ts generalizing n with
  | nil => rfl
  | cons t ts ih =>
    rw [List.map_cons, covered, covered, ih]
    rfl

theorem MemoryModel.resolveProject_stored (scope : Scope) :
    (m.stored overrides).toModel.resolveProject scope =
      (m.overridden overrides).resolveProject scope := by
  change (m.stored overrides).whenLoaded (.ok (covered scope 0 (m.types.map _))) = _
  rw [covered_stored]
  rfl

theorem MemoryModel.type_stored (id : Nat) :
    (m.stored overrides).type id = (m.type id).map (JavaType.stored overrides) := by
  unfold MemoryModel.type whenLoaded
  simp only [MemoryModel.stored, List.getElem?_map]
  cases m.loaded <;> cases m.types[id]? <;> rfl

end answers

/-! ## Occurrences -/

section occurrences
variable (overrides : Element → List Annotation) (m : MemoryModel)

theorem Occurrence.among_stored (t : JavaType) (target : Target) (annotations : List Annotation) :
    among (t.stored overrides) (target.stored overrides t) annotations =
      (among t target annotations).map (Occurrence.stored overrides) := by
  unfold among
  rw [List.map_filterMap]
  congr 1
  funext a
  cases Catalog.resolve? a <;> rfl

theorem Occurrence.ofType_stored (t : JavaType) :
    ofType (m.stored overrides).toModel (t.stored overrides) (t.stored overrides).methods =
      (ofType (m.overridden overrides) t t.methods).map (Occurrence.stored overrides) := by
  unfold ofType
  simp only [List.map_append, List.map_flatMap, ← among_stored]
  simp only [JavaType.stored, List.flatMap_map]
  rfl

theorem Occurrence.inType_stored (id : Nat) :
    inType (m.stored overrides).toModel id =
      (inType (m.overridden overrides) id).map (·.map (Occurrence.stored overrides)) := by
  change ((m.stored overrides).type id).bind (fun t =>
      (((m.stored overrides).type id).map JavaType.methods).bind fun methods =>
        .ok (ofType (m.stored overrides).toModel t methods)) =
    ((m.type id).bind fun t => ((m.type id).map JavaType.methods).bind fun methods =>
      .ok (ofType (m.overridden overrides) t methods)).map _
  rw [m.type_stored overrides id]
  cases m.type id with
  | error e => rfl
  | ok t => exact congrArg Except.ok (ofType_stored overrides m t)

end occurrences

/-! ## Properties -/

section properties
variable (overrides : Element → List Annotation) (m : MemoryModel)

/-- One occurrence does the same to a derivation on both models. On a method it values the type's
tier from the type's annotation, which the one model stores and the other is given. -/
theorem Derivation.visit_stored (d : Derivation) (o : Occurrence) :
    d.visit (m.stored overrides).toModel (o.stored overrides) =
      d.visit (m.overridden overrides) o := by
  obtain ⟨spec, a, t, target⟩ := o
  cases target <;> rfl

theorem Derivation.visitType_stored (d : Derivation) (id : Nat) :
    d.visitType (m.stored overrides).toModel id = d.visitType (m.overridden overrides) id := by
  unfold Derivation.visitType
  rw [Occurrence.inType_stored]
  cases Occurrence.inType (m.overridden overrides) id with
  | error e => rfl
  | ok found =>
    change (found.map (Occurrence.stored overrides)).foldl _ d = found.foldl _ d
    rw [List.foldl_map]
    congr 1
    funext d o
    exact d.visit_stored overrides m o

theorem Analyzer.properties_stored (scope : Scope) :
    properties (m.overridden overrides) scope = properties (m.stored overrides).toModel scope := by
  have hvisit : Derivation.visitType (m.overridden overrides) =
      Derivation.visitType (m.stored overrides).toModel := by
    funext d id
    exact (d.visitType_stored overrides m id).symm
  unfold properties projectProperties
  rw [hvisit, m.resolveProject_stored overrides]

end properties

/-! ## Diagnostics -/

section diagnostics
variable (overrides : Element → List Annotation) (m : MemoryModel)

theorem Fallback.problem?_stored (check : Bool) (t : JavaType) (methods : List Method)
    (target : Target) (name : String) :
    problem? check (methods.map (Method.stored overrides t)) (target.stored overrides t) name =
      problem? check methods target name := by
  have hnamed : (methods.map (Method.stored overrides t)).filter (·.name == name) =
      (methods.filter (·.name == name)).map (Method.stored overrides t) := by
    rw [List.filter_map]
    rfl
  unfold problem?
  rw [hnamed]
  cases methods.filter (·.name == name) with
  | nil => cases target <;> rfl
  | cons candidate others => cases others <;> cases target <;> rfl

theorem Fallback.finding?_stored (check : Bool) (methods : List Method) (o : Occurrence) :
    finding? (m.stored overrides).toModel check
        (methods.map (Method.stored overrides o.declaringType)) (o.stored overrides) =
      finding? (m.overridden overrides) check methods o := by
  unfold finding?
  simp only [Occurrence.stored, problem?_stored]
  rfl

theorem Fallback.findings_stored (check : Bool) (id : Nat) :
    findings (m.stored overrides).toModel check id =
      findings (m.overridden overrides) check id := by
  have hstored := m.type_stored overrides id
  cases ht : m.type id with
  | error e =>
    have hmethods : (m.stored overrides).toModel.methodsOf id = .error e := by
      change ((m.stored overrides).type id).map _ = _
      rw [hstored, ht]
      rfl
    have hmethods' : (m.overridden overrides).methodsOf id = .error e :=
      congrArg (Except.map JavaType.methods) ht
    unfold findings
    rw [hmethods, hmethods']
    rfl
  | ok t =>
    have htype : (m.stored overrides).type id = .ok (t.stored overrides) := by
      rw [hstored, ht]
      rfl
    have hmethods : (m.stored overrides).toModel.methodsOf id =
        .ok (t.methods.map (Method.stored overrides t)) :=
      congrArg (Except.map JavaType.methods) htype
    have hmethods' : (m.overridden overrides).methodsOf id = .ok t.methods :=
      congrArg (Except.map JavaType.methods) ht
    have hfound := Occurrence.ofType_stored overrides m t
    rw [findings_of_readable htype hmethods, findings_of_readable ht hmethods']
    congr 1
    refine (congrArg _ hfound).trans ?_
    rw [List.filterMap_map]
    apply List.filterMap_congr
    intro o ho
    obtain ⟨rfl, _⟩ := Occurrence.mem_ofType.mp ho
    exact finding?_stored overrides m check o.declaringType.methods o

theorem Analyzer.diagnostics_stored (settings : Settings) (uris : List String)
    (format : Option DocumentFormat) :
    diagnostics settings (m.overridden overrides) uris format =
      diagnostics settings (m.stored overrides).toModel uris format := by
  have htype : typeDiagnostics settings.diagnostics (formatOf settings format)
      (m.overridden overrides) =
        typeDiagnostics settings.diagnostics (formatOf settings format)
          (m.stored overrides).toModel := by
    funext id
    unfold typeDiagnostics
    rw [Fallback.findings_stored]
  apply diagnostics_congr
  intro uri _
  unfold documentDiagnostics
  rw [htype]
  rfl

end diagnostics

/-! ## Both requests -/

/-- A host that answers with annotations of its own for any types, methods and fields of a project
gets the properties and the diagnostics of the project that stores these annotations, in every scope
and for every request. -/
theorem Analyzer.overrides_honoured (m : MemoryModel) (overrides : Element → List Annotation) :
    (∀ scope, properties (m.overridden overrides) scope =
      properties (m.stored overrides).toModel scope) ∧
    ∀ settings uris format, diagnostics settings (m.overridden overrides) uris format =
      diagnostics settings (m.stored overrides).toModel uris format :=
  ⟨properties_stored overrides m, diagnostics_stored overrides m⟩

end FaultTolerance
