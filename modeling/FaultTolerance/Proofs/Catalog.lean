import FaultTolerance.Catalog.Annotations
import Mathlib.Data.List.Nodup

/-! What the catalog of annotations promises to those who build names from it: a simple name tells
its entries apart, a parameter's name the parameters of an entry, and none of these names has a
slash. -/
namespace FaultTolerance.Catalog
set_option autoImplicit false

theorem mem_of_resolve? {a : Java.Annotation} {spec : Spec} (h : resolve? a = some spec) :
    spec ∈ annotations := by
  unfold resolve? lookup? at h
  cases hq : annotations.find? (·.qualifiedName == a.name) with
  | some found =>
    rw [hq] at h
    have he : found = spec := Option.some.inj h
    exact he ▸ List.mem_of_find?_eq_some hq
  | none =>
    rw [hq] at h
    change annotations.find? (fun s => a.matchesName s.qualifiedName) = some spec at h
    exact List.mem_of_find?_eq_some h

theorem fallback_mem_annotations : fallback ∈ annotations := by
  unfold annotations
  exact .tail _ (.tail _ (.tail _ (.head _)))

/-! ## Names that tell apart -/

theorem map_simpleName : annotations.map Spec.simpleName =
    ["Asynchronous", "Bulkhead", "CircuitBreaker", "Fallback", "Retry", "Timeout"] := by decide +kernel

theorem parameters_wellNamed : ∀ spec ∈ annotations, (spec.parameters.map Parameter.name).Nodup ∧
    ∀ p ∈ spec.parameters, '/' ∉ p.name.toList ∧ (p.name = fallbackMethod → p.default? = none) := by
  decide +kernel

theorem nodup_simpleNames : (annotations.map Spec.simpleName).Nodup := by
  rw [map_simpleName]
  decide

theorem nodup_parameterNames :
    ∀ spec ∈ annotations, (spec.parameters.map Parameter.name).Nodup :=
  fun spec hs => (parameters_wellNamed spec hs).1

theorem eq_of_simpleName {s s' : Spec} (hs : s ∈ annotations) (hs' : s' ∈ annotations)
    (h : s.simpleName = s'.simpleName) : s = s' :=
  List.inj_on_of_nodup_map nodup_simpleNames hs hs' h

theorem eq_of_qualifiedName {s s' : Spec} (hs : s ∈ annotations) (hs' : s' ∈ annotations)
    (h : s.qualifiedName = s'.qualifiedName) : s = s' :=
  eq_of_simpleName hs hs' (by unfold Spec.simpleName; rw [h])

theorem eq_of_parameterName {spec : Spec} {p p' : Parameter} (hs : spec ∈ annotations)
    (hp : p ∈ spec.parameters) (hp' : p' ∈ spec.parameters) (h : p.name = p'.name) : p = p' :=
  List.inj_on_of_nodup_map (nodup_parameterNames spec hs) hp hp' h

/-! ## Names without slashes -/

theorem slash_notMem_simpleName : ∀ spec ∈ annotations, '/' ∉ spec.simpleName.toList := by
  have hnames : ∀ name ∈ annotations.map Spec.simpleName, '/' ∉ name.toList := by
    rw [map_simpleName]
    simp
  exact fun spec hs => hnames _ (List.mem_map_of_mem hs)

theorem slash_notMem_parameterName :
    ∀ spec ∈ annotations, ∀ p ∈ spec.parameters, '/' ∉ p.name.toList :=
  fun spec hs p hp => ((parameters_wellNamed spec hs).2 p hp).1

/-! ## The required parameter -/

theorem default?_fallbackMethod : ∀ spec ∈ annotations, ∀ p ∈ spec.parameters,
    p.name = fallbackMethod → p.default? = none :=
  fun spec hs p hp => ((parameters_wellNamed spec hs).2 p hp).2

end FaultTolerance.Catalog
