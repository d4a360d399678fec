import FaultTolerance.Proofs.Project.Building
import FaultTolerance.Proofs.Source.Forgetting.Meaning

/-! Projects of sources that are alike. Where each source has the outline of another one, up to what is
forgotten of their tokens, both projects have the same documents with the same types in them, apart from
ranges and from texts kept as written (`MemoryModel.ofSources_reworded`). -/
namespace FaultTolerance
open Java Source
set_option autoImplicit false

/-! ## Sources that are alike -/

/-- Two sources of one document with the same outline, up to what is forgotten of its tokens. -/
structure SourceUnit.Alike (g : Forgetting) (u u' : SourceUnit) : Prop where
  uri : u.uri = u'.uri
  isDependency : u.isDependency = u'.isDependency
  outline : u.outline.forget g = u'.outline.forget g

namespace SourceUnit.Alike
variable {g : Forgetting} {u u' : SourceUnit}

theorem origin (h : u.Alike g u') : u.origin = u'.origin := by
  rw [SourceUnit.origin, h.isDependency, h.uri, SourceUnit.origin]

theorem declaredNames (h : u.Alike g u') :
    u.outline.declaredNames = u'.outline.declaredNames := by
  rw [← Outline.declaredNames_forget (g := g), h.outline, Outline.declaredNames_forget]

theorem types (h : u.Alike g u') (known : List String) :
    (u.types known).map (JavaType.reworded g.text) =
      (u'.types known).map (JavaType.reworded g.text) := by
  rw [u.types_eq_toTypes, u'.types_eq_toTypes, h.origin]
  exact Outline.toTypes_forget h.outline ..

end SourceUnit.Alike

/-! ## Projects of such sources -/

namespace MemoryModel
variable {g : Forgetting}

/-- The project with no range in its types, and with its texts changed where they are kept as
written. -/
def reworded (w : String → String) (m : MemoryModel) : MemoryModel :=
  { m with types := m.types.map (JavaType.reworded w) }

theorem addTypes_reworded (w : String → String) (m : MemoryModel) (ts : List JavaType) :
    (ts.foldl (fun m t => (m.addType t).2) m).reworded w =
      (ts.map (JavaType.reworded w)).foldl (fun m t => (m.addType t).2) (m.reworded w) := by
  induction ts generalizing m with
  | nil => rfl
  | cons t ts ih =>
    rw [List.map_cons, List.foldl_cons, List.foldl_cons, ih]
    congr 1
    simp only [addType, reworded, List.map_append, List.length_map]
    rfl

theorem addUnit_reworded {m m' : MemoryModel} (hm : m.reworded g.text = m'.reworded g.text)
    {u u' : SourceUnit} (h : u.Alike g u') (known : List String) :
    (m.addUnit known u u.root).reworded g.text =
      (m'.addUnit known u' u'.root).reworded g.text := by
  have hdocument : ∀ uri, (m.addDocument uri).reworded g.text =
      (m'.addDocument uri).reworded g.text := fun uri => congrArg (fun m => addDocument m uri) hm
  unfold addUnit
  rw [addTypes_reworded, addTypes_reworded]
  congr 1
  · rw [h.isDependency, h.uri]
    split
    · exact hm
    · exact hdocument u'.uri
  · exact h.types known

theorem knownNames_alike {classpath : List String} {units units' : List SourceUnit}
    (h : List.Forall₂ (SourceUnit.Alike g) units units') :
    knownNames classpath units = knownNames classpath units' := by
  have hdeclared : declaredTypes (units.map SourceUnit.root) =
      declaredTypes (units'.map SourceUnit.root) := by
    unfold declaredTypes
    induction h with
    | nil => rfl
    | cons hu _ ih =>
      rw [List.map_cons, List.map_cons, List.flatMap_cons, List.flatMap_cons, ih,
        SourceUnit.declaredNames_root, SourceUnit.declaredNames_root, hu.declaredNames]
  rw [knownNames, hdeclared, knownNames]

/-- Sources that are alike give the same project, apart from ranges and from texts kept as written. -/
theorem ofSources_reworded (project : String) (classpath : List String)
    {units units' : List SourceUnit} (h : List.Forall₂ (SourceUnit.Alike g) units units') :
    (ofSources project classpath units).reworded g.text =
      (ofSources project classpath units').reworded g.text := by
  rw [ofSources_eq_foldl, ofSources_eq_foldl, knownNames_alike h]
  generalize knownNames classpath units' = known
  -- what the first units add differs in what is left open, so the induction is over both projects so far
  have hall : ∀ m m' : MemoryModel, m.reworded g.text = m'.reworded g.text →
      (units.foldl (fun m u => m.addUnit known u u.root) m).reworded g.text =
        (units'.foldl (fun m u => m.addUnit known u u.root) m').reworded g.text := by
    induction h with
    | nil => exact fun m m' hm => hm
    | cons hu _ ih => exact fun m m' hm => ih _ _ (addUnit_reworded hm hu known)
  exact hall _ _ rfl

end MemoryModel
end FaultTolerance
