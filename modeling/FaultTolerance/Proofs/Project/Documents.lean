import FaultTolerance.Proofs.FirstOfEach
import FaultTolerance.Proofs.Project.Building
import FaultTolerance.Proofs.Project.Changes
import FaultTolerance.Proofs.Source.Meaning

/-! The documents of a project built from sources. Building is a run of changes, so the table of
documents is consistent (`indexed_ofSources`): the documents are those of the sources that are no
dependencies, and one lists the types of its sources, source by source (`listed_ofSources`). -/
namespace FaultTolerance
open Java Source
set_option autoImplicit false

theorem SourceUnit.origin_of_mem_types {u : SourceUnit} {known : List String} {t : JavaType}
    (h : t ∈ u.types known) : t.origin = u.origin := by
  rw [u.types_eq_toTypes] at h
  exact origin_of_mem_toTypes h

theorem SourceUnit.origin_eq_source {u : SourceUnit} {uri : String} :
    u.origin = .source uri ↔ u.isDependency = false ∧ u.uri = uri := by
  unfold SourceUnit.origin
  cases u.isDependency <;> simp

/-- Whether the types of a source belong to a document. -/
def SourceUnit.isIn (u : SourceUnit) (uri : String) : Bool := !u.isDependency && u.uri == uri

theorem SourceUnit.isIn_iff {u : SourceUnit} {uri : String} :
    u.isIn uri ↔ u.isDependency = false ∧ u.uri = uri := by
  simp [SourceUnit.isIn]

theorem SourceUnit.uri?_of_mem_types {u : SourceUnit} {known : List String} {t : JavaType}
    (h : t ∈ u.types known) (uri : String) : (t.uri? == some uri) = u.isIn uri := by
  rw [Bool.eq_iff_iff, beq_iff_eq, JavaType.uri?_eq_some, SourceUnit.origin_of_mem_types h,
    SourceUnit.origin_eq_source, SourceUnit.isIn_iff]

/-- What building adds for a source: its document, then its types. -/
def SourceUnit.changes (u : SourceUnit) (known : List String) : List Change :=
  (if u.isDependency then [] else [.document u.uri]) ++ (u.types known).map .type

theorem SourceUnit.any_opens {u : SourceUnit} {known : List String} {uri : String} :
    (u.changes known).any (·.opens uri) ↔ u.isIn uri := by
  have htypes : ∀ t ∈ u.types known, Change.opens uri (.type t) = u.isIn uri :=
    fun t ht => SourceUnit.uri?_of_mem_types ht uri
  rw [SourceUnit.changes, List.any_append, Bool.or_eq_true, List.any_map]
  constructor
  · rintro (h | h)
    · by_cases hd : u.isDependency <;> simp_all [Change.opens, SourceUnit.isIn]
    · obtain ⟨t, ht, ho⟩ := List.any_eq_true.mp h
      exact htypes t ht ▸ ho
  · intro h
    obtain ⟨hd, hu⟩ := SourceUnit.isIn_iff.mp h
    exact .inl (by simp [hd, hu, Change.opens])

namespace MemoryModel

/-! ## Building as a run -/

theorem foldl_addType_eq_after (m : MemoryModel) (ts : List JavaType) :
    ts.foldl (fun m t => (m.addType t).2) m = m.after (ts.map .type) := by
  rw [MemoryModel.after, List.foldl_map]
  rfl

theorem addUnit_eq_after (known : List String) (m : MemoryModel) (u : SourceUnit) :
    m.addUnit known u u.root = m.after (u.changes known) := by
  unfold addUnit SourceUnit.changes
  rw [foldl_addType_eq_after, after_append]
  cases u.isDependency <;> rfl

theorem addUnits_eq_after (known : List String) (m : MemoryModel) (units : List SourceUnit) :
    units.foldl (fun m u => m.addUnit known u u.root) m =
      m.after (units.flatMap (·.changes known)) := by
  induction units generalizing m with
  | nil => rfl
  | cons u units ih => rw [List.foldl_cons, addUnit_eq_after, ih, List.flatMap_cons, after_append]

theorem indexed_ofSources (project : String) (classpath : List String) (units : List SourceUnit) :
    (ofSources project classpath units).Indexed
      (units.flatMap (·.changes (knownNames classpath units))) := by
  rw [ofSources_eq_foldl, addUnits_eq_after]
  exact indexed_after project _

/-! ## The types of a document -/

variable {project : String} {classpath : List String} {units : List SourceUnit}

theorem typesInDocument_ofSources_eq_error {uri : String} {cause : ModelError}
    (h : (ofSources project classpath units).toModel.typesInDocument uri = .error cause) :
    cause = .unknownDocument uri := by
  rw [(indexed_ofSources project classpath units).typesInDocument] at h
  split at h <;> cases h
  rfl

/-- The documents known are those of the sources that are no dependencies. -/
theorem known_ofSources {uri : String} :
    (∃ ids, (ofSources project classpath units).toModel.typesInDocument uri = .ok ids) ↔
      units.any (·.isIn uri) := by
  have hopens : (units.flatMap (·.changes (knownNames classpath units))).any (·.opens uri) ↔
      units.any (·.isIn uri) := by
    rw [List.any_flatMap, List.any_eq_true, List.any_eq_true]
    simp only [SourceUnit.any_opens]
  rw [(indexed_ofSources project classpath units).typesInDocument, ← hopens]
  split
  · rename_i h
    exact ⟨fun _ => h, fun _ => ⟨_, rfl⟩⟩
  · rename_i h
    exact ⟨nofun, fun hopen => absurd hopen h⟩

theorem type_of_mem_document {uri : String} {ids : List Nat} {id : Nat}
    (h : (ofSources project classpath units).toModel.typesInDocument uri = .ok ids)
    (hid : id ∈ ids) :
    ∃ u ∈ units, u.uri = uri ∧ u.isDependency = false ∧
      ∃ t ∈ u.types (knownNames classpath units),
        (ofSources project classpath units).toModel.type id = .ok t := by
  have hindexed := indexed_ofSources project classpath units
  obtain ⟨t, ht, horigin⟩ := (hindexed.mem_document h).mp hid
  have hmem := List.mem_of_getElem? (hindexed.type_eq_ok_iff.mp ht)
  rw [types_ofSources] at hmem
  obtain ⟨u, hu, htu⟩ := List.mem_flatMap.mp hmem
  rw [SourceUnit.origin_of_mem_types htu] at horigin
  obtain ⟨hsource, huri⟩ := SourceUnit.origin_eq_source.mp horigin
  exact ⟨u, hu, huri, hsource, t, htu, ht⟩

/-- The document of a source is known, and lists the types of its sources in their order. -/
theorem listed_ofSources {u : SourceUnit} (hu : u ∈ units) (hsource : u.isDependency = false) :
    ∃ ids, (ofSources project classpath units).toModel.typesInDocument u.uri = .ok ids ∧
      ids.Pairwise (· < ·) ∧
      ids.map (ofSources project classpath units).toModel.type =
        ((units.filter (·.isIn u.uri)).flatMap (·.types (knownNames classpath units))).map .ok := by
  have hindexed := indexed_ofSources project classpath units
  have hopen : (units.flatMap (·.changes (knownNames classpath units))).any (·.opens u.uri) := by
    rw [List.any_flatMap, List.any_eq_true]
    exact ⟨u, hu, SourceUnit.any_opens.mpr (SourceUnit.isIn_iff.mpr ⟨hsource, rfl⟩)⟩
  refine ⟨idsIn u.uri (ofSources project classpath units).types, ?_, List.pairwise_findIdxs, ?_⟩
  · rw [hindexed.typesInDocument, if_pos hopen]
  · rw [hindexed.map_type_idsIn, types_ofSources, filter_flatMap_of_forall fun v _ t ht =>
      SourceUnit.uri?_of_mem_types ht u.uri]

end MemoryModel
end FaultTolerance
