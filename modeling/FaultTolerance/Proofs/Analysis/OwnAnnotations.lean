import FaultTolerance.Proofs.Analysis.Foreign
import FaultTolerance.Proofs.Project.Imports
import FaultTolerance.Proofs.Source.TypeNames

/-! Annotations that a project declares itself, next to those of the catalog. An entry of the catalog
is denoted by its qualified name, or by its simple name, which is how a name that could not be
resolved is left (`Catalog.resolve?_eq_some_iff`). A type in a package, or inside another type, has a
separator in its qualified name and so is never taken for an entry. A type at top level of the default
package has none: its qualified name is a simple one, and if an entry has that simple name the type is
taken for the entry (`own_annotations_denote`). -/
namespace FaultTolerance
open Java Source Text
set_option autoImplicit false

/-! ## Names of entries -/

namespace Catalog

theorem denotes_simpleName : ∀ spec ∈ annotations,
    Annotation.denotes spec.simpleName spec.qualifiedName = true := by decide +kernel

theorem plain_simpleName : ∀ spec ∈ annotations, IsSimpleName spec.simpleName ∧
    '.' ∉ spec.simpleName.toList ∧ '$' ∉ spec.simpleName.toList := by decide +kernel

theorem dot_mem_qualifiedName : ∀ spec ∈ annotations, '.' ∈ spec.qualifiedName.toList := by
  decide +kernel

theorem qualifiedName_ne_simpleName {spec spec' : Spec} (hs : spec ∈ annotations)
    (hs' : spec' ∈ annotations) : spec.qualifiedName ≠ spec'.simpleName := by
  intro h
  obtain ⟨_, hdot, _⟩ := plain_simpleName spec' hs'
  rw [← h] at hdot
  exact hdot (dot_mem_qualifiedName spec hs)

theorem denotes_iff {written : String} {spec : Spec} (hs : spec ∈ annotations) :
    Annotation.denotes written spec.qualifiedName = true ↔
      written = spec.qualifiedName ∨ written = spec.simpleName := by
  constructor
  · intro h
    rcases Bool.or_eq_true_iff.mp h with h | h
    · exact .inl (beq_iff_eq.mp h)
    · obtain ⟨hundotted, hend⟩ := Bool.and_eq_true_iff.mp h
      have hdots : ∀ c ∈ written.toList, decide (c = '.') = false := by
        intro c hc
        apply decide_eq_false
        rintro rfl
        rw [List.contains_iff_mem.mpr hc] at hundotted
        cases hundotted
      split at hend
      · rename_i pre hpre
        obtain ⟨pre', rfl⟩ := List.getLast?_eq_some_iff.mp (beq_iff_eq.mp hend)
        have hqualified := stripEnd?_eq_some_iff.mp hpre
        rw [List.append_assoc, List.singleton_append] at hqualified
        refine .inr ?_
        rw [Spec.simpleName, hqualified, lastSegment_append_cons (by decide), lastSegment_self hdots,
          String.ofList_toList]
      · cases hend
  · rintro (rfl | rfl)
    · simp [ Annotation.denotes]
    · exact denotes_simpleName spec hs

/-- An annotation denotes the entry that has its name as qualified or as simple name. -/
theorem resolve?_eq_some_iff {a : Annotation} {spec : Spec} :
    resolve? a = some spec ↔
      spec ∈ annotations ∧ (a.name = spec.qualifiedName ∨ a.name = spec.simpleName) := by
  have hfound : ∀ found ∈ annotations, spec ∈ annotations →
      (a.name = found.qualifiedName ∨ a.name = found.simpleName) →
      (a.name = spec.qualifiedName ∨ a.name = spec.simpleName) → found = spec := by
    intro found hf hs hname hname'
    rcases hname with hname | hname <;> rcases hname' with hname' | hname'
    · exact eq_of_qualifiedName hf hs (hname.symm.trans hname')
    · exact absurd (hname.symm.trans hname') (qualifiedName_ne_simpleName hf hs)
    · exact absurd (hname'.symm.trans hname) (qualifiedName_ne_simpleName hs hf)
    · exact eq_of_simpleName hf hs (hname.symm.trans hname')
  have hnames : ∀ {found}, resolve? a = some found →
      a.name = found.qualifiedName ∨ a.name = found.simpleName := by
    intro found h
    have hmem := mem_of_resolve? h
    unfold resolve? lookup? at h
    cases hq : annotations.find? (·.qualifiedName == a.name) with
    | some s =>
      rw [hq] at h
      obtain rfl : s = found := Option.some.inj h
      have hname := List.find?_some hq
      exact .inl (beq_iff_eq.mp hname).symm
    | none =>
      rw [hq] at h
      change annotations.find? (fun s => a.matchesName s.qualifiedName) = some found at h
      have hdenotes := List.find?_some h
      exact (denotes_iff hmem).mp hdenotes
  constructor
  · intro h
    exact ⟨mem_of_resolve? h, hnames h⟩
  · rintro ⟨hs, hname⟩
    cases h : resolve? a with
    | some found => rw [hfound found (mem_of_resolve? h) hs (hnames h) hname]
    | none =>
      have hdenotes : a.matchesName spec.qualifiedName = true := (denotes_iff hs).mpr hname
      unfold resolve? at h
      cases hq : lookup? a.name with
      | some found =>
        rw [hq] at h
        cases h
      | none =>
        rw [hq] at h
        have hnone : annotations.find? (fun s => a.matchesName s.qualifiedName) = none := h
        exact absurd hdenotes (List.find?_eq_none.mp hnone spec hs)

theorem resolve?_congr {a b : Annotation} (h : a.name = b.name) : resolve? a = resolve? b := by
  apply Option.ext
  intro spec
  rw [resolve?_eq_some_iff, resolve?_eq_some_iff, h]

end Catalog

/-! ## Names without separators -/

namespace Java.Source

/-- Only a type at top level of the default package has a name without separators. -/
theorem qualifiedName_eq_iff_of_plain {outer name : String} {path : List TypeSyntax}
    {t : TypeSyntax} (hpath : ∀ u ∈ path, u.simple ≠ "") (hdot : '.' ∉ name.toList)
    (hdollar : '$' ∉ name.toList) :
    qualifiedName outer '.' path t = name ↔ outer = "" ∧ path = [] ∧ t.simple = name := by
  constructor
  · intro h
    cases path with
    | nil =>
      by_cases houter : outer = ""
      · subst houter
        exact ⟨rfl, rfl, h⟩
      · refine absurd ?_ hdot
        rw [← h, qualifiedName, qualify, if_neg (by simpa using houter)]
        simp
    | cons u path =>
      -- The name around a nested type is not empty, so a dollar sign stands behind it.
      have hu := qualify_ne_empty outer '.' (hpath u List.mem_cons_self)
      have hrest : ∀ v ∈ path, v.simple ≠ "" := fun v hv => hpath v (List.mem_cons_of_mem u hv)
      obtain ⟨outer', houter', hname⟩ := qualifiedName_nested hu path hrest t
      refine absurd ?_ hdollar
      rw [← h, qualifiedName, hname, qualify, if_neg (by simpa using houter')]
      simp
  · rintro ⟨rfl, rfl, rfl⟩
    rfl

/-! ## What a scope finds -/

/-- The qualified name that one of the tables has for a simple name. -/
def NameScope.found? (s : NameScope) (name : String) : Option String :=
  (s.declared.lookup name).or <| (s.imported.lookup name).or <|
    (s.package.bind (s.knownIn? · name)).or <| (s.onDemand.findSome? (s.knownIn? · name)).or <|
    if ubiquitous.contains name then some ("java.lang." ++ name) else none

section
variable {known : List String} {cs : List Char} {name q : String}

/-- What is found without a separator is a type of the source itself, at top level and without a
package, or an import without a dot. -/
theorem plain_of_found? (hdot : '.' ∉ q.toList) (hdollar : '$' ∉ q.toList)
    (h : (NameScope.ofOutline known (.ofSource cs)).found? name = some q) :
    q = name ∧ (((Outline.ofSource cs).packagePrefix = "" ∧
        ∃ t ∈ (Outline.ofSource cs).types, t.simple = name) ∨
      ∃ i ∈ (Outline.ofSource cs).imports, i.isSingle ∧ i.written = name) := by
  have hknown : ∀ {package}, (NameScope.ofOutline known (.ofSource cs)).knownIn? package name ≠
      some q := by
    intro package hq
    obtain ⟨rfl, _⟩ := knownIn?_eq_some_iff.mp hq
    simp at hdot
  unfold NameScope.found? at h
  simp only [Option.or_eq_some_iff] at h
  rcases h with h | ⟨_, h | ⟨_, h | ⟨_, h | ⟨_, h⟩⟩⟩⟩
  · obtain ⟨before, after, htable, _⟩ := List.lookup_eq_some_iff.mp h
    have hmem : (name, q) ∈ (NameScope.ofOutline known (.ofSource cs)).declared := by
      rw [htable]
      exact List.mem_append_right before List.mem_cons_self
    obtain ⟨⟨q', n⟩, hdeclared, hswap⟩ := List.mem_map.mp hmem
    obtain ⟨rfl, rfl⟩ := Prod.mk.inj hswap
    obtain ⟨path, t, hdecl, hq, hn⟩ := (mem_namesOfAll _).mp (List.mem_reverse.mp hdeclared)
    obtain ⟨hdefault, rfl, hsimple⟩ :=
      (qualifiedName_eq_iff_of_plain (simple_ne_empty_of_mem_path hdecl) hdot hdollar).mp hq.symm
    refine ⟨hsimple.symm.trans hn.symm, .inl ⟨hdefault, t, ?_, hn.symm⟩⟩
    cases hdecl with
    | here hmem => exact hmem
  · obtain ⟨before, after, htable, _⟩ := List.lookup_eq_some_iff.mp h
    have hmem : (name, q) ∈ (NameScope.ofOutline known (.ofSource cs)).imported := by
      rw [htable]
      exact List.mem_append_right before List.mem_cons_self
    obtain ⟨i, hi, hsingle, himported⟩ := mem_imported.mp hmem
    obtain ⟨hlast, hwritten⟩ := Prod.mk.inj himported
    have hdots : ∀ c ∈ i.written.toList, decide (c = '.') = false := by
      intro c hc
      apply decide_eq_false
      rintro rfl
      exact hdot (hwritten ▸ hc)
    rw [lastSegment_self hdots, String.ofList_toList] at hlast
    exact ⟨hwritten.symm.trans hlast, .inr ⟨i, hi, hsingle, hlast⟩⟩
  · obtain ⟨p, _, hq⟩ := Option.bind_eq_some_iff.mp h
    exact absurd hq hknown
  · obtain ⟨p, _, hq⟩ := List.exists_of_findSome?_eq_some h
    exact absurd hq hknown
  · split at h
    · obtain rfl := Option.some.inj h
      simp at hdot
    · cases h

end
end Java.Source

/-! ## Resolution and the catalog -/

section
variable {known : List String} {name : String}

theorem Java.Source.NameScope.resolve_eq_found? (s : NameScope) (hname : IsSimpleName name) :
    s.resolve name = (s.found? name).getD name :=
  s.resolve_of_isSimpleName hname

theorem Java.Source.NameScope.resolve_of_not_isSimpleName (s : NameScope)
    (hname : ¬ IsSimpleName name) : s.resolve name = name := by
  unfold NameScope.resolve
  rw [if_pos]
  by_contra h
  simp only [Bool.or_eq_true, not_or, Bool.not_eq_true, decide_eq_false_iff_not] at h
  obtain ⟨⟨hprimitive, hvoid⟩, hundotted⟩ := h
  exact hname ⟨hprimitive, hvoid, hundotted⟩

/-- The name that an annotation is written with. -/
def Java.Source.AnnotationSyntax.written (x : AnnotationSyntax) : String := Token.compactText x.name

/-- An entry that is not denoted by its qualified name is denoted by the simple name that is
written. Either nothing was found for it, or what was found has no other name: a type of the same
source at top level of the default package, or an import of such a name. -/
theorem SourceUnit.denoted_by_simple_name (v : SourceUnit) {x : AnnotationSyntax}
    {spec : Catalog.Spec}
    (h : Catalog.resolve? (Setting.annotation (v.setting known) x) = some spec)
    (hname : (Setting.annotation (v.setting known) x).name ≠ spec.qualifiedName) :
    x.written = spec.simpleName ∧
      ((v.setting known).names.found? x.written = none ∨
        (v.outline.packagePrefix = "" ∧ ∃ t ∈ v.outline.types, t.simple = x.written) ∨
        ∃ i ∈ v.outline.imports, i.isSingle ∧ i.written = x.written) := by
  obtain ⟨hs, hdenoted⟩ := Catalog.resolve?_eq_some_iff.mp h
  obtain ⟨hsimple, hdot, hdollar⟩ := Catalog.plain_simpleName spec hs
  have hresolve : (v.setting known).names.resolve x.written = spec.simpleName :=
    hdenoted.resolve_left hname
  by_cases hw : IsSimpleName x.written
  · rw [NameScope.resolve_eq_found? _ hw] at hresolve
    cases hfound : (v.setting known).names.found? x.written with
    | none =>
      rw [hfound] at hresolve
      exact ⟨hresolve, .inl rfl⟩
    | some q =>
      rw [hfound] at hresolve
      obtain rfl : q = spec.simpleName := hresolve
      rw [v.names_setting] at hfound
      obtain ⟨hsame, hwhere⟩ := plain_of_found? hdot hdollar hfound
      exact ⟨hsame.symm, .inr hwhere⟩
  · -- What is not looked up stays as it is written, and no entry has such a simple name.
    rw [NameScope.resolve_of_not_isSimpleName _ hw] at hresolve
    rw [hresolve] at hw
    exact absurd hsimple hw

end

/-- An annotation that reads as a type of the project, no entry of the catalog, is taken for an
entry just when the type stands at top level of the default package and has the entry's simple name.
Where it is taken for none it plays no part. An annotation that is taken for an entry by a simple
name was not resolved, or is of such a type, or of an import without a dot. -/
theorem SourceUnit.own_annotations_denote (project : String) (classpath : List String)
    (units : List SourceUnit) (u v : SourceUnit) (path : List TypeSyntax) (t : TypeSyntax)
    (hdecl : Declares u.outline.types path t) (x : AnnotationSyntax) :
    let known := knownNames classpath units
    let model := (MemoryModel.ofSources project classpath units).toModel
    let a := Setting.annotation (v.setting known) x
    let qualified := qualifiedName u.outline.packagePrefix '.' path t
    (a.name = qualified → (∀ spec ∈ Catalog.annotations, spec.qualifiedName ≠ qualified) →
      (∀ spec, Catalog.resolve? a = some spec ↔ spec ∈ Catalog.annotations ∧
        u.outline.packagePrefix = "" ∧ path = [] ∧ t.simple = spec.simpleName) ∧
      (Catalog.resolve? a = none → model.Ignores (·.name == qualified))) ∧
    (∀ spec, Catalog.resolve? a = some spec → a.name ≠ spec.qualifiedName →
      x.written = spec.simpleName ∧
        ((v.setting known).names.found? x.written = none ∨
          (v.outline.packagePrefix = "" ∧ ∃ t' ∈ v.outline.types, t'.simple = x.written) ∨
          ∃ i ∈ v.outline.imports, i.isSingle ∧ i.written = x.written)) := by
  intro known model a qualified
  refine ⟨?_, fun spec h hname => v.denoted_by_simple_name h hname⟩
  intro hname hforeign
  refine ⟨?_, ?_⟩
  · intro spec
    rw [Catalog.resolve?_eq_some_iff, hname]
    refine and_congr_right fun hs => ?_
    obtain ⟨_, hdot, hdollar⟩ := Catalog.plain_simpleName spec hs
    rw [or_iff_right (hforeign spec hs).symm]
    exact qualifiedName_eq_iff_of_plain (simple_ne_empty_of_mem_path hdecl) hdot hdollar
  · intro hnone
    have hout : ∀ b : Annotation, (b.name == qualified) = true → Catalog.resolve? b = none := by
      intro b hb
      have hsame : b.name = a.name := (beq_iff_eq.mp hb).trans hname.symm
      rw [Catalog.resolve?_congr hsame, hnone]
    exact model.ignores_foreign hout

/-- A source of the default package that declares its own `Timeout`. -/
def jobUnit : SourceUnit where
  uri := "file:///Job.java"
  text := "@interface Timeout \x7b\x7d @Timeout class Job \x7b\x7d"

/-- A source that declares its own `Retry` in a package. -/
def taskUnit : SourceUnit where
  uri := "file:///Task.java"
  text := "package acme; @interface Retry \x7b\x7d @Retry class Task \x7b\x7d"

/-- The annotation on the job is taken for an entry, the one on the task is not. -/
theorem SourceUnit.own_annotations_denote_job :
    let known := knownNames [] [jobUnit, taskUnit]
    let model := (MemoryModel.ofSources "jobs" [] [jobUnit, taskUnit]).toModel
    (∃ x ∈ jobUnit.outline.allAnnotations,
      Catalog.resolve? (Setting.annotation (jobUnit.setting known) x) = some Catalog.timeout) ∧
    (∃ x ∈ taskUnit.outline.allAnnotations,
      Catalog.resolve? (Setting.annotation (taskUnit.setting known) x) = none) ∧
    Analyzer.properties (model.leavingOut (·.name == "acme.Retry")) .sourcesOnly =
      Analyzer.properties model .sourcesOnly := by
  intro known model
  obtain ⟨hjobNames, hdefault, hjobTypes⟩ :
      jobUnit.outline.allAnnotations.map
          (fun x => (Setting.annotation (jobUnit.setting known) x).name) = ["Timeout"] ∧
        jobUnit.outline.packagePrefix = "" ∧
        jobUnit.outline.types.map TypeSyntax.simple = ["Timeout", "Job"] := by
    decide +kernel
  obtain ⟨htaskNames, hacme, htaskTypes⟩ :
      taskUnit.outline.allAnnotations.map
          (fun x => (Setting.annotation (taskUnit.setting known) x).name) = ["acme.Retry"] ∧
        taskUnit.outline.packagePrefix = "acme" ∧
        taskUnit.outline.types.map TypeSyntax.simple = ["Retry", "Task"] := by
    decide +kernel
  obtain ⟨htimeout, hentry, hforeign⟩ : Catalog.timeout ∈ Catalog.annotations ∧
      Catalog.timeout.simpleName = "Timeout" ∧ ∀ spec ∈ Catalog.annotations,
        spec.qualifiedName ≠ "Timeout" ∧ spec.qualifiedName ≠ "acme.Retry" := by
    decide +kernel
  obtain ⟨onJob, hjob, hjobName⟩ := List.mem_map.mp (hjobNames ▸ List.mem_singleton.mpr rfl)
  obtain ⟨onTask, htask, htaskName⟩ := List.mem_map.mp (htaskNames ▸ List.mem_singleton.mpr rfl)
  obtain ⟨jobTimeout, hmem, hsimple⟩ := List.mem_map.mp (hjobTypes ▸ List.mem_cons_self)
  obtain ⟨taskRetry, hmem', hsimple'⟩ := List.mem_map.mp (htaskTypes ▸ List.mem_cons_self)
  have hjobQualified :
      qualifiedName jobUnit.outline.packagePrefix '.' [] jobTimeout = "Timeout" := by
    rw [qualifiedName, hdefault, hsimple]
    rfl
  have htaskQualified :
      qualifiedName taskUnit.outline.packagePrefix '.' [] taskRetry = "acme.Retry" := by
    rw [qualifiedName, hacme, hsimple']
    rfl
  obtain ⟨hdenotes, _⟩ := (own_annotations_denote "jobs" [] [jobUnit, taskUnit] jobUnit jobUnit []
    jobTimeout (.here hmem) onJob).1 (hjobName.trans hjobQualified.symm)
    (hjobQualified ▸ fun spec hs => (hforeign spec hs).1)
  obtain ⟨hnot, hsilent⟩ := (own_annotations_denote "jobs" [] [jobUnit, taskUnit] taskUnit taskUnit
    [] taskRetry (.here hmem') onTask).1 (htaskName.trans htaskQualified.symm)
    (htaskQualified ▸ fun spec hs => (hforeign spec hs).2)
  have hnone : Catalog.resolve? (Setting.annotation (taskUnit.setting known) onTask) = none := by
    rw [Option.eq_none_iff_forall_ne_some]
    intro spec h
    obtain ⟨_, hempty, _⟩ := (hnot spec).mp h
    rw [hacme] at hempty
    exact absurd hempty (by decide)
  refine ⟨⟨onJob, hjob, ?_⟩, ⟨onTask, htask, hnone⟩, ?_⟩
  · exact (hdenotes Catalog.timeout).mpr ⟨htimeout, hdefault, rfl, hsimple.trans hentry.symm⟩
  · have hsame := (hsilent hnone).properties .sourcesOnly
    rw [htaskQualified] at hsame
    exact hsame

end FaultTolerance
