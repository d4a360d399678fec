import FaultTolerance.CommandLine.Project
import FaultTolerance.Proofs.Project.Documents
import Mathlib.Data.List.Nodup

/-! Projects read from files. Reading succeeds when every Java file can be read (`read_eq_ok`), and the
documents that the model then knows are those of the project's sources (`known_iff`). -/
namespace FaultTolerance.CommandLine
open Files
set_option autoImplicit false

/-! ## Reading -/

/-- Whether files are those at some locations, with the texts that they have there. -/
structure ReadFrom (fs : FileSystem) (ls : List Location) (files : List SourceFile) : Prop where
  locations : files.map SourceFile.location = ls
  texts : ∀ f ∈ files, fs.readAt f.location = .ok f.text

theorem readAll_eq_ok {fs : FileSystem} {ls : List Location}
    (h : ∀ l ∈ ls, ∃ text, fs.readAt l = .ok text) :
    ∃ files, SourceFile.readAll fs ls = .ok files ∧ ReadFrom fs ls files := by
  induction ls with
  | nil => exact ⟨[], rfl, rfl, nofun⟩
  | cons l ls ih =>
    obtain ⟨⟨text, htext⟩, hls⟩ := List.forall_mem_cons.mp h
    obtain ⟨files, hfiles, hread⟩ := ih hls
    refine ⟨⟨l, text⟩ :: files, ?_, congrArg (l :: ·) hread.locations, ?_⟩
    · unfold SourceFile.readAll at hfiles ⊢
      rw [List.mapM_cons, htext, hfiles]
      rfl
    · exact List.forall_mem_cons.mpr ⟨htext, hread.texts⟩

namespace Project

/-- The project at a path is read when each of its Java files is. -/
theorem read_eq_ok {fs : FileSystem} {path : String} {l : Location} (hpath : fs.resolve path = .ok l)
    (hreadable : ∀ f ∈ (filesAt fs l).2, ∃ text, fs.readAt f = .ok text) :
    ∃ p, read fs path [] = .ok p ∧ p.dependencies = [] ∧ ReadFrom fs (filesAt fs l).2 p.sources := by
  obtain ⟨files, hfiles, hread⟩ := readAll_eq_ok hreadable
  refine ⟨⟨(filesAt fs l).1, files, []⟩, ?_, rfl, hread⟩
  unfold read
  rw [hpath]
  change (SourceFile.readAll fs (filesAt fs l).2).bind _ = _
  rw [hfiles]
  rfl

/-! ## Documents -/

variable {p : Project} {uri : String}

theorem uris_of_readFrom {fs : FileSystem} {ls : List Location} (h : ReadFrom fs ls p.sources) :
    p.uris = ls.map Location.uri := by
  rw [← h.locations, List.map_map]
  rfl

theorem any_isIn_units : p.units.any (·.isIn uri) ↔ uri ∈ p.uris := by
  rw [units, List.any_append, List.any_map, List.any_map, Bool.or_eq_true, List.any_eq_true]
  have hdependencies : ¬p.dependencies.any ((·.isIn uri) ∘ SourceFile.toUnit true) := by
    rw [List.any_eq_true]
    rintro ⟨f, -, hf⟩
    cases (SourceUnit.isIn_iff.mp hf).1
  constructor
  · rintro (⟨f, hf, hin⟩ | h)
    · exact List.mem_map.mpr ⟨f, hf, (SourceUnit.isIn_iff.mp hin).2⟩
    · exact absurd h hdependencies
  · intro h
    obtain ⟨f, hf, huri⟩ := List.mem_map.mp h
    exact .inl ⟨f, hf, SourceUnit.isIn_iff.mpr ⟨rfl, huri⟩⟩

/-- The model knows the documents of the project's own sources, whether or not they declare types. -/
theorem known_iff : (∃ ids, p.toModel.typesInDocument uri = .ok ids) ↔ uri ∈ p.uris := by
  rw [← any_isIn_units]
  exact MemoryModel.known_ofSources

theorem pathOf_uri (hdistinct : p.uris.Nodup) {f : SourceFile} (hf : f ∈ p.sources) :
    p.pathOf f.uri = f.location.path := by
  have hmatch : (p.sources.reverse.find? (·.uri == f.uri)).isSome :=
    List.find?_isSome.mpr ⟨f, List.mem_reverse.mpr hf, beq_self_eq_true f.uri⟩
  obtain ⟨g, hg⟩ := Option.isSome_iff_exists.mp hmatch
  have huri : g.uri = f.uri := by simpa using List.find?_some hg
  have hmem : g ∈ p.sources := List.mem_reverse.mp (List.mem_of_find?_eq_some hg)
  rw [pathOf, hg, List.inj_on_of_nodup_map hdistinct hmem hf huri]

end Project
end FaultTolerance.CommandLine
