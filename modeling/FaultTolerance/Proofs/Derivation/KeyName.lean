import FaultTolerance.Proofs.Derivation.Offers

/-! Reading a property's key off its name. A name is the segments of its key with slashes between
them; where no segment has a slash of its own, splitting at the slashes gives the segments back, and
their number and texts give the key. -/
namespace FaultTolerance
open Java
set_option autoImplicit false

/-! ## Segments -/

def Reach.segments : Reach → List String
  | .ofType type => [type]
  | .ofMethod type method => [type, method]
  | .everywhere => []

theorem Reach.segments_injective : Function.Injective Reach.segments := by
  intro r r' h
  cases r <;> cases r' <;> simp_all [Reach.segments]

namespace PropertyKey

def segments : PropertyKey → List String
  | .parameter reach spec p => reach.segments ++ [spec.simpleName, p.name]
  | .nonFallback => [Catalog.nonFallbackEnabled]

theorem name_eq_intercalate (k : PropertyKey) : k.name = "/".intercalate k.segments := by
  cases k with
  | nonFallback => rfl
  | parameter reach spec p =>
    cases reach <;>
      simp [name, segments, Reach.segments, String.intercalate_cons_cons, String.append_assoc]

theorem segments_ne_nil (k : PropertyKey) : k.segments ≠ [] := by
  cases k with
  | nonFallback => exact List.cons_ne_nil _ _
  | parameter reach spec p => exact List.append_ne_nil_of_right_ne_nil _ (List.cons_ne_nil _ _)

/-- A parameter of the catalog, applied to a type or method without a slash in its name. -/
def Slashless : PropertyKey → Prop
  | .parameter reach spec p =>
    (∀ s ∈ reach.segments, '/' ∉ s.toList) ∧ spec ∈ Catalog.annotations ∧ p ∈ spec.parameters
  | .nonFallback => True

theorem Slashless.slash_notMem {k : PropertyKey} (h : k.Slashless) :
    ∀ s ∈ k.segments, '/' ∉ s.toList := by
  intro s hs
  cases k with
  | nonFallback =>
    rw [List.mem_singleton.mp hs]
    decide
  | parameter reach spec p =>
    obtain ⟨hr, hspec, hp⟩ := h
    rcases List.mem_append.mp hs with hs | hs
    · exact hr s hs
    · rcases List.mem_cons.mp hs with rfl | hs
      · exact Catalog.slash_notMem_simpleName spec hspec
      · rw [List.mem_singleton.mp hs]
        exact Catalog.slash_notMem_parameterName spec hspec p hp

/-! ## Reading the name -/

theorem splitOn_name {k : PropertyKey} (h : k.Slashless) :
    k.name.toList.splitOn '/' = k.segments.map String.toList := by
  rw [name_eq_intercalate, String.toList_intercalate]
  apply List.splitOn_intercalate
  · intro l hl
    obtain ⟨s, hs, rfl⟩ := List.mem_map.mp hl
    exact h.slash_notMem s hs
  · exact fun hnil => segments_ne_nil k (List.map_eq_nil_iff.mp hnil)

theorem eq_of_segments {k k' : PropertyKey} (h : k.Slashless) (h' : k'.Slashless)
    (he : k.segments = k'.segments) : k = k' := by
  cases k with
  | nonFallback =>
    cases k' with
    | nonFallback => rfl
    | parameter reach spec p =>
      have hl := congrArg List.length he
      simp [segments] at hl
  | parameter reach spec p =>
    cases k' with
    | nonFallback =>
      have hl := congrArg List.length he
      simp [segments] at hl
    | parameter reach' spec' p' =>
      obtain ⟨hr, htail⟩ := List.append_inj' he rfl
      obtain ⟨hs, hp⟩ := List.cons.inj htail
      obtain ⟨_, hspec, hparam⟩ := h
      obtain ⟨_, hspec', hparam'⟩ := h'
      obtain rfl := Reach.segments_injective hr
      obtain rfl := Catalog.eq_of_simpleName hspec hspec' hs
      obtain rfl := Catalog.eq_of_parameterName hspec hparam hparam' (List.cons.inj hp).1
      rfl

/-- A name determines its key: the reach with its type and method, the annotation, and the
parameter. -/
theorem eq_of_name {k k' : PropertyKey} (h : k.Slashless) (h' : k'.Slashless)
    (he : k.name = k'.name) : k = k' := by
  apply eq_of_segments h h'
  have hs := splitOn_name h
  rw [he, splitOn_name h'] at hs
  exact (List.map_injective_iff.mpr fun _ _ => String.toList_inj.mp) hs.symm

theorem getLast?_segments {k : PropertyKey} (h : k.Slashless) {stem last : String}
    (hl : '/' ∉ last.toList) (he : k.name = stem ++ "/" ++ last) :
    k.segments.getLast? = some last := by
  have hs := splitOn_name h
  have hslash : ("/" : String).toList = ['/'] := rfl
  rw [he, String.toList_append, String.toList_append, hslash, List.append_assoc,
    List.singleton_append, List.splitOn_append_cons_self, List.splitOn_eq_singleton hl] at hs
  have hlast := congrArg List.getLast? hs
  rw [List.getLast?_append, List.getLast?_singleton, Option.some_or, List.getLast?_map] at hlast
  obtain ⟨s, hg, ht⟩ := Option.map_eq_some_iff.mp hlast.symm
  rw [hg, String.toList_inj.mp ht]

end PropertyKey
end FaultTolerance
