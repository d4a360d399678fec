import FaultTolerance.Occurrence
import FaultTolerance.Proofs.Catalog

/-! Where catalog annotations occur in the types that a model can read: a type counts when the model
gives both the type and its methods, and every occurrence is an annotation on the type, on one of
those methods or on one of its fields. -/
namespace FaultTolerance
open Java
set_option autoImplicit false

/-! ## Readable types -/

/-- A type and its methods, when the model gives both. -/
def Model.readable? (model : Model) (id : Nat) : Option (JavaType × List Method) :=
  match model.type id, model.methodsOf id with
  | .ok t, .ok methods => some (t, methods)
  | _, _ => none

/-- The occurrences in the types that can be read. -/
def Model.occurrences (model : Model) (ids : List Nat) : List Occurrence :=
  (ids.filterMap model.readable?).flatMap fun (t, methods) => Occurrence.ofType model t methods

/-- Whether one of the numbers is that of a type that can be read, with these methods. -/
def Model.Reads (model : Model) (ids : List Nat) (t : JavaType) (methods : List Method) : Prop :=
  ∃ id ∈ ids, model.type id = .ok t ∧ model.methodsOf id = .ok methods

theorem Model.readable?_eq_some {model : Model} {id : Nat} {t : JavaType} {methods : List Method} :
    model.readable? id = some (t, methods) ↔
      model.type id = .ok t ∧ model.methodsOf id = .ok methods := by
  unfold Model.readable?
  cases model.type id <;> cases model.methodsOf id <;> simp

theorem Model.mem_occurrences {model : Model} {ids : List Nat} {o : Occurrence} :
    o ∈ model.occurrences ids ↔
      ∃ t methods, model.Reads ids t methods ∧ o ∈ Occurrence.ofType model t methods := by
  unfold Model.occurrences Model.Reads
  rw [List.mem_flatMap]
  constructor
  · rintro ⟨⟨t, methods⟩, hr, ho⟩
    obtain ⟨id, hid, hr⟩ := List.mem_filterMap.mp hr
    obtain ⟨ht, hm⟩ := Model.readable?_eq_some.mp hr
    exact ⟨t, methods, ⟨id, hid, ht, hm⟩, ho⟩
  · rintro ⟨t, methods, ⟨id, hid, ht, hm⟩, ho⟩
    have hr := Model.readable?_eq_some.mpr ⟨ht, hm⟩
    exact ⟨(t, methods), List.mem_filterMap.mpr ⟨id, hid, hr⟩, ho⟩

theorem Occurrence.toOption_inType (model : Model) (id : Nat) :
    (Occurrence.inType model id).toOption =
      (model.readable? id).map fun (t, methods) => Occurrence.ofType model t methods := by
  unfold Occurrence.inType Model.readable?
  cases model.type id with
  | error e => rfl
  | ok t =>
    cases model.methodsOf id with
    | error e => rfl
    | ok methods => rfl

/-! ## The occurrences in a type -/

def Target.element (t : JavaType) : Target → Element
  | .type => .type t
  | .method m => .method t m
  | .field f => .field t f

namespace Occurrence

/-- All that annotations in a type may stand on, in the order of the search. -/
def targets (t : JavaType) (methods : List Method) : List Target :=
  .type :: methods.map .method ++ t.fields.map .field

theorem type_mem_targets (t : JavaType) (methods : List Method) : .type ∈ targets t methods :=
  List.mem_cons_self

theorem method_mem_targets {t : JavaType} {methods : List Method} {m : Method} :
    .method m ∈ targets t methods ↔ m ∈ methods := by
  simp [targets]

theorem field_mem_targets {t : JavaType} {methods : List Method} {f : Field} :
    .field f ∈ targets t methods ↔ f ∈ t.fields := by
  simp [targets]

theorem ofType_eq_flatMap (model : Model) (t : JavaType) (methods : List Method) :
    ofType model t methods = (targets t methods).flatMap fun target =>
      among t target (model.annotationsOn (target.element t)) := by
  unfold ofType targets
  rw [List.cons_append, List.flatMap_cons, List.flatMap_append, List.flatMap_map, List.flatMap_map,
    List.append_assoc]
  rfl

theorem mem_among {t : JavaType} {target : Target} {annotations : List Annotation}
    {o : Occurrence} :
    o ∈ among t target annotations ↔ o.declaringType = t ∧ o.target = target ∧
      o.annotation ∈ annotations ∧ Catalog.resolve? o.annotation = some o.spec := by
  unfold among
  simp only [List.mem_filterMap, Option.map_eq_some_iff]
  constructor
  · rintro ⟨a, ha, spec, hs, rfl⟩
    exact ⟨rfl, rfl, ha, hs⟩
  · rintro ⟨rfl, rfl, ha, hs⟩
    exact ⟨o.annotation, ha, o.spec, hs, rfl⟩

theorem mem_ofType {model : Model} {t : JavaType} {methods : List Method} {o : Occurrence} :
    o ∈ ofType model t methods ↔ o.declaringType = t ∧ o.target ∈ targets t methods ∧
      o.annotation ∈ model.annotationsOn (o.target.element t) ∧
      Catalog.resolve? o.annotation = some o.spec := by
  rw [ofType_eq_flatMap, List.mem_flatMap]
  constructor
  · rintro ⟨target, htarget, ho⟩
    obtain ⟨ht, rfl, ha, hs⟩ := mem_among.mp ho
    exact ⟨ht, htarget, ha, hs⟩
  · rintro ⟨ht, htarget, ha, hs⟩
    exact ⟨o.target, htarget, mem_among.mpr ⟨ht, rfl, ha, hs⟩⟩

theorem spec_mem_of_mem_ofType {model : Model} {t : JavaType} {methods : List Method}
    {o : Occurrence} (h : o ∈ ofType model t methods) : o.spec ∈ Catalog.annotations :=
  Catalog.mem_of_resolve? (mem_ofType.mp h).2.2.2

end Occurrence

/-! ## Elements that carry an annotation -/

/-- Whether one of an element's annotations denotes the entry `spec`. -/
def Model.Carries (model : Model) (e : Element) (spec : Catalog.Spec) : Prop :=
  ∃ a ∈ model.annotationsOn e, Catalog.resolve? a = some spec

theorem Occurrence.carries_of_mem {model : Model} {t : JavaType} {methods : List Method}
    {o : Occurrence} (h : o ∈ ofType model t methods) :
    model.Carries (o.target.element t) o.spec :=
  ⟨o.annotation, (mem_ofType.mp h).2.2⟩

end FaultTolerance
