import FaultTolerance.Analyzer
import FaultTolerance.Proofs.Derivation.Tail
import FaultTolerance.Proofs.Project.Changes

/-! What a wider scope adds to the properties of a project held in memory. The types of the narrow
scope are among those of the wide one, so each use of an annotation is there again, and each property
name and hint with it. Where no dependency has the name of a source type, nothing in a dependency
can take a name from a source type: the properties of the source types are the same ones, in the same
order (`wider_scope_adds`). -/
namespace FaultTolerance
open Java
set_option autoImplicit false

/-! ## The types of a scope -/

namespace MemoryModel

theorem covered_subset (n : Nat) (ts : List JavaType) :
    covered .sourcesOnly n ts ⊆ covered .sourcesAndDependencies n ts := by
  intro id hid
  rw [covered_eq_findIdxs, List.mem_findIdxs_iff_getElem_sub_pos] at hid ⊢
  obtain ⟨hle, hlt, _⟩ := hid
  refine ⟨hle, hlt, ?_⟩
  cases (ts[id - n]).origin <;> rfl

variable {m : MemoryModel}

theorem readable?_toModel (h : m.loaded = true) {id : Nat} {t : JavaType}
    (ht : m.types[id]? = some t) : m.toModel.readable? id = some (t, t.methods) := by
  have htype : m.toModel.type id = .ok t := by
    change m.type id = _
    simp [MemoryModel.type, whenLoaded, h, ht]
  have hmethods : m.toModel.methodsOf id = .ok t.methods := congrArg (·.map JavaType.methods) htype
  exact Model.readable?_eq_some.mpr ⟨htype, hmethods⟩

theorem filterMap_readable?_covered (h : m.loaded = true) (scope : Scope) {before ts : List JavaType}
    (hts : m.types = before ++ ts) :
    (covered scope before.length ts).filterMap m.toModel.readable? =
      (ts.filter fun t => scope.covers t.origin).map fun t => (t, t.methods) := by
  induction ts generalizing before with
  | nil => rfl
  | cons t ts ih =>
    have hread : m.toModel.readable? before.length = some (t, t.methods) := by
      apply readable?_toModel h
      rw [hts, List.getElem?_append_right (Nat.le_refl _), Nat.sub_self, List.getElem?_cons_zero]
    have htail : (covered scope (before.length + 1) ts).filterMap m.toModel.readable? =
        (ts.filter fun t => scope.covers t.origin).map fun t => (t, t.methods) := by
      have hts' : m.types = (before ++ [t]) ++ ts := by
        rw [hts, List.append_assoc, List.singleton_append]
      have hrest := ih hts'
      rwa [List.length_append] at hrest
    unfold covered
    by_cases hcovers : scope.covers t.origin
    · rw [if_pos hcovers, List.filterMap_cons_some hread, htail,
        List.filter_cons_of_pos (by exact hcovers), List.map_cons]
    · rw [if_neg hcovers, htail, List.filter_cons_of_neg (by exact hcovers)]

theorem occurrences_covered (h : m.loaded = true) (scope : Scope) :
    m.toModel.occurrences (covered scope 0 m.types) =
      (m.types.filter fun t => scope.covers t.origin).flatMap fun t =>
        Occurrence.ofType m.toModel t t.methods := by
  have hread : (covered scope 0 m.types).filterMap m.toModel.readable? =
      (m.types.filter fun t => scope.covers t.origin).map fun t => (t, t.methods) :=
    filterMap_readable?_covered h scope (List.nil_append m.types).symm
  unfold Model.occurrences
  rw [hread, List.flatMap_map]

end MemoryModel

/-! ## More types -/

section mono
variable {model : Model} {ids ids' : List Nat}

theorem Model.Reads.mono (hids : ids ⊆ ids') {t : JavaType} {methods : List Method}
    (h : model.Reads ids t methods) : model.Reads ids' t methods := by
  obtain ⟨id, hid, hread⟩ := h
  exact ⟨id, hids hid, hread⟩

theorem Model.Uses.mono (hids : ids ⊆ ids') {spec : Catalog.Spec} {reach : Reach}
    (h : model.Uses ids spec reach) : model.Uses ids' spec reach := by
  cases h with
  | ofType hr hc => exact .ofType (hr.mono hids) hc
  | ofMethod hr hm hc => exact .ofMethod (hr.mono hids) hm hc
  | everywhere hr hc => exact .everywhere (hr.mono hids) hc

theorem Model.HasProperty.mono (hids : ids ⊆ ids') {k : PropertyKey}
    (h : model.HasProperty ids k) : model.HasProperty ids' k := by
  cases k with
  | nonFallback => trivial
  | parameter reach spec p => exact ⟨h.1.mono hids, h.2⟩

theorem usedIn_mono (hids : ids ⊆ ids') :
    usedIn (model.occurrences ids) ⊆ usedIn (model.occurrences ids') := by
  intro spec hspec
  obtain ⟨o, ho, hs⟩ := mem_usedIn.mp hspec
  obtain ⟨t, methods, hr, ho⟩ := Model.mem_occurrences.mp ho
  exact mem_usedIn.mpr ⟨o, Model.mem_occurrences.mpr ⟨t, methods, hr.mono hids, ho⟩, hs⟩

theorem names_mono (hids : ids ⊆ ids') :
    (model.naiveProperties ids).properties.map (·.name) ⊆
      (model.naiveProperties ids').properties.map (·.name) := by
  intro name hname
  obtain ⟨k, hk, hn⟩ := Model.mem_names_iff.mp hname
  exact Model.mem_names_iff.mpr ⟨k, hk.mono hids, hn⟩

theorem hints_mono (hids : ids ⊆ ids') :
    (model.naiveProperties ids).hints ⊆ (model.naiveProperties ids').hints := by
  rw [hints_eq, hints_eq]
  by_cases henum : (usedIn (model.occurrences ids)).any (·.hasEnum)
  · obtain ⟨spec, hspec, he⟩ := List.any_eq_true.mp henum
    have henum' : (usedIn (model.occurrences ids')).any (·.hasEnum) :=
      List.any_eq_true.mpr ⟨spec, usedIn_mono hids hspec, he⟩
    rw [if_pos henum, if_pos henum']
    exact List.Subset.refl _
  · rw [if_neg henum]
    exact List.nil_subset _

end mono

/-! ## The properties of one type -/

/-- The part of a name before its first slash. -/
def owner (name : String) : List Char := name.toList.takeWhile (· != '/')

theorem owner_append {type rest : String} (h : '/' ∉ type.toList) :
    owner (type ++ "/" ++ rest) = type.toList := by
  have htype : ∀ c ∈ type.toList, (c != '/') = true := by
    intro c hc
    rw [bne_iff_ne]
    rintro rfl
    exact h hc
  have hslash : ("/" : String).toList = ['/'] := rfl
  unfold owner
  rw [String.toList_append, String.toList_append, List.append_assoc,
    List.takeWhile_append_of_pos htype, hslash]
  simp

theorem Occurrence.item_of_mem_offers {model : Model} {o : Occurrence} {f : Offer}
    (h : f ∈ o.offers model) : f.item.binary = o.declaringType.isBinary ∧
      f.item.sourceType = some o.declaringType.name ∧
      ∃ rest, f.item.name = o.declaringType.name ++ "/" ++ rest := by
  have htype : ∀ {a}, f ∈ typeOffers o.declaringType o.spec a →
      f.item.binary = o.declaringType.isBinary ∧ f.item.sourceType = some o.declaringType.name ∧
        ∃ rest, f.item.name = o.declaringType.name ++ "/" ++ rest := by
    intro a hf
    obtain ⟨p, _, default, _, rfl⟩ := mem_offersOf.mp hf
    refine ⟨rfl, rfl, o.spec.simpleName ++ "/" ++ p.name, ?_⟩
    simp only [Tier.property, Tier.ofType, String.append_assoc]
  unfold Occurrence.offers at h
  cases hk : o.target with
  | type =>
    rw [hk] at h
    exact htype h
  | method m =>
    rw [hk] at h
    rcases List.mem_append.mp h with h | h
    · exact htype h
    · obtain ⟨p, _, default, _, rfl⟩ := mem_offersOf.mp h
      refine ⟨rfl, rfl, m.name ++ "/" ++ o.spec.simpleName ++ "/" ++ p.name, ?_⟩
      simp only [Tier.property, Tier.ofMethod, String.append_assoc]
  | field _ =>
    rw [hk] at h
    cases h

/-- What the occurrences in a type offer. -/
def itemsOf (model : Model) (t : JavaType) : List ItemMetadata :=
  ((Occurrence.ofType model t t.methods).flatMap (·.offers model)).map (·.item)

theorem item_of_mem_itemsOf {model : Model} {t : JavaType} {i : ItemMetadata}
    (h : i ∈ itemsOf model t) : i.binary = t.isBinary ∧ i.sourceType = some t.name ∧
      ∃ rest, i.name = t.name ++ "/" ++ rest := by
  obtain ⟨f, hf, rfl⟩ := List.mem_map.mp h
  obtain ⟨o, ho, hf⟩ := List.mem_flatMap.mp hf
  obtain ⟨ht, _⟩ := Occurrence.mem_ofType.mp ho
  have hitem := Occurrence.item_of_mem_offers hf
  rwa [ht] at hitem

namespace MemoryModel
variable {m : MemoryModel}

/-- The properties of types and methods in a scope. -/
def ownItems (m : MemoryModel) (scope : Scope) : List ItemMetadata :=
  firstOfEach (·.name)
    ((m.types.filter fun t => scope.covers t.origin).flatMap (itemsOf m.toModel))

theorem properties_covered (h : m.loaded = true) (scope : Scope) :
    (m.toModel.naiveProperties (covered scope 0 m.types)).properties =
      m.ownItems scope ++
        (usedIn (m.toModel.occurrences (covered scope 0 m.types))).flatMap Catalog.Spec.items ++
        [nonFallbackProperty] := by
  have hitems : ((m.toModel.occurrences (covered scope 0 m.types)).flatMap
        (·.offers m.toModel)).map (·.item) =
      (m.types.filter fun t => scope.covers t.origin).flatMap (itemsOf m.toModel) := by
    rw [occurrences_covered h, List.flatMap_assoc, List.map_flatMap]
    rfl
  rw [properties_eq_append_tail, items_tailOffers, hitems, List.append_assoc]
  rfl

theorem exists_type_of_mem_ownItems {scope : Scope} {i : ItemMetadata}
    (h : i ∈ m.ownItems scope) : ∃ t ∈ m.types, scope.covers t.origin ∧ i ∈ itemsOf m.toModel t := by
  obtain ⟨t, ht, hi⟩ := List.mem_flatMap.mp ((FirstOfEach.firstOfEach_sublist _ _).subset h)
  obtain ⟨ht, hcovers⟩ := List.mem_filter.mp ht
  exact ⟨t, ht, hcovers, hi⟩

/-- Whether no dependency has the name of a source type, and no type has a slash in its name. -/
structure NamesApart (m : MemoryModel) : Prop where
  slashless : ∀ t ∈ m.types, '/' ∉ t.name.toList
  apart : ∀ t ∈ m.types, ∀ t' ∈ m.types, t.isBinary = false → t'.isBinary = true → t.name ≠ t'.name

/-- Whether a source type has a name. -/
def hasSource (m : MemoryModel) (name : List Char) : Bool :=
  m.types.any fun t => !t.isBinary && t.name.toList == name

theorem hasSource_owner (h : m.NamesApart) {t : JavaType} (ht : t ∈ m.types) {i : ItemMetadata}
    (hi : i ∈ itemsOf m.toModel t) : m.hasSource (owner i.name) = !t.isBinary := by
  obtain ⟨_, _, rest, hname⟩ := item_of_mem_itemsOf hi
  rw [hname, owner_append (h.slashless t ht), hasSource, Bool.eq_iff_iff, List.any_eq_true]
  simp only [Bool.and_eq_true, Bool.not_eq_true', beq_iff_eq, String.toList_inj]
  constructor
  · rintro ⟨t', ht', hsource, hsame⟩
    cases hb : t.isBinary with
    | false => rfl
    | true => exact absurd hsame (h.apart t' ht' t ht hsource hb)
  · intro hsource
    exact ⟨t, ht, hsource, rfl⟩

theorem covers_sourcesOnly (t : JavaType) :
    Scope.sourcesOnly.covers t.origin = !t.isBinary := by
  unfold JavaType.isBinary
  cases t.origin <;> rfl

theorem filter_sourcesAndDependencies (ts : List JavaType) :
    (ts.filter fun t => Scope.sourcesAndDependencies.covers t.origin) = ts := by
  rw [List.filter_eq_self]
  intro t _
  cases t.origin <;> rfl

/-- The properties of source types stay as they are, and in their order. -/
theorem filter_ownItems (h : m.NamesApart) :
    (m.ownItems .sourcesAndDependencies).filter (fun i => !i.binary) = m.ownItems .sourcesOnly := by
  -- The first of each name is kept, so what takes the source types apart has to go by the name alone.
  have hbinary : ∀ i ∈ m.ownItems .sourcesAndDependencies,
      (!i.binary) = m.hasSource (owner i.name) := by
    intro i hi
    obtain ⟨t, ht, _, hi⟩ := exists_type_of_mem_ownItems hi
    obtain ⟨hb, _⟩ := item_of_mem_itemsOf hi
    rw [hasSource_owner h ht hi, hb]
  have hsources : (m.types.flatMap (itemsOf m.toModel)).filter (fun i => m.hasSource (owner i.name)) =
      (m.types.filter fun t => Scope.sourcesOnly.covers t.origin).flatMap (itemsOf m.toModel) := by
    apply filter_flatMap_of_forall
    intro t ht i hi
    rw [hasSource_owner h ht hi, covers_sourcesOnly]
  rw [List.filter_congr hbinary]
  unfold ownItems
  rw [filter_sourcesAndDependencies,
    ← FirstOfEach.firstOfEach_filter (fun i : ItemMetadata => i.name)
      (fun name => m.hasSource (owner name)), hsources]

end MemoryModel

/-- A wider scope only adds: no property name and no hint goes away. Where no dependency has the name
of a source type, the properties of source types and their methods stay the same, and in their order;
those in addition come from dependencies and are flagged so, and the ones for all uses of an
annotation that the narrow scope has are all there. -/
theorem Analyzer.wider_scope_adds (m : MemoryModel) :
    (m.loaded = false → ∀ scope, properties m.toModel scope =
      .error (.typeModelUnavailable (.projectNotLoaded m.project))) ∧
    (m.loaded = true → ∃ narrow wide, properties m.toModel .sourcesOnly = .ok narrow ∧
      properties m.toModel .sourcesAndDependencies = .ok wide ∧
      narrow.properties.map (·.name) ⊆ wide.properties.map (·.name) ∧
      narrow.hints ⊆ wide.hints ∧
      (m.NamesApart → ∃ (own own' : List ItemMetadata) (specs specs' : List Catalog.Spec),
        narrow.properties = own ++ specs.flatMap Catalog.Spec.items ++ [nonFallbackProperty] ∧
        wide.properties = own' ++ specs'.flatMap Catalog.Spec.items ++ [nonFallbackProperty] ∧
        own'.filter (fun i => !i.binary) = own ∧
        (∀ i ∈ own', ∃ t ∈ m.types, i ∈ itemsOf m.toModel t ∧ i.binary = t.isBinary ∧
          i.sourceType = some t.name) ∧
        specs ⊆ specs' ∧ specs'.Nodup)) := by
  constructor
  · intro hloaded scope
    have hresolve : m.toModel.resolveProject scope = .error (.projectNotLoaded m.project) := by
      change m.whenLoaded _ = _
      simp [MemoryModel.whenLoaded, hloaded]
    unfold properties projectProperties
    rw [hresolve]
    rfl
  · intro hloaded
    have hids := MemoryModel.covered_subset 0 m.types
    have hproperties : ∀ scope, properties m.toModel scope =
        .ok (m.toModel.naiveProperties (MemoryModel.covered scope 0 m.types)) := by
      intro scope
      unfold properties
      rw [projectProperties_of_resolve (MemoryModel.resolveProject_toModel hloaded scope)]
      rfl
    refine ⟨_, _, hproperties _, hproperties _, names_mono hids, hints_mono hids, ?_⟩
    intro hapart
    refine ⟨_, _, _, _, MemoryModel.properties_covered hloaded _,
      MemoryModel.properties_covered hloaded _, MemoryModel.filter_ownItems hapart, ?_,
      usedIn_mono hids, nodup_usedIn _⟩
    intro i hi
    obtain ⟨t, ht, _, hi⟩ := MemoryModel.exists_type_of_mem_ownItems hi
    obtain ⟨hb, hs, _⟩ := item_of_mem_itemsOf hi
    exact ⟨t, ht, hi, hb, hs⟩

/-- A client from a dependency, and a service that uses another annotation. -/
def payments : MemoryModel where
  project := "payments"
  types := [
    { name := "org.bank.Client", kind := .classType, origin := .binary
      annotations := [{ name := "Bulkhead" }] },
    { name := "org.acme.Payments", kind := .classType, origin := .source "file:///Payments.java"
      annotations := [{ name := "Asynchronous" }] }]

theorem Analyzer.wider_scope_adds_payments :
    ∃ narrow wide, properties payments.toModel .sourcesOnly = .ok narrow ∧
      properties payments.toModel .sourcesAndDependencies = .ok wide ∧
      narrow.properties.map (·.name) ⊆ wide.properties.map (·.name) ∧
      narrow.hints ⊆ wide.hints ∧
      (∃ (own own' : List ItemMetadata) (specs specs' : List Catalog.Spec),
        narrow.properties = own ++ specs.flatMap Catalog.Spec.items ++ [nonFallbackProperty] ∧
        wide.properties = own' ++ specs'.flatMap Catalog.Spec.items ++ [nonFallbackProperty] ∧
        own'.filter (fun i => !i.binary) = own ∧ specs ⊆ specs') ∧
      wide.properties.length = narrow.properties.length + 6 := by
  have hapart : payments.NamesApart := ⟨by decide, by decide⟩
  obtain ⟨narrow, wide, hnarrow, hwide, hnames, hhints, hown⟩ :=
    (wider_scope_adds payments).2 rfl
  obtain ⟨own, own', specs, specs', hn, hw, hfilter, _, hspecs, _⟩ := hown hapart
  refine ⟨narrow, wide, hnarrow, hwide, hnames, hhints,
    ⟨own, own', specs, specs', hn, hw, hfilter, hspecs⟩, ?_⟩
  have hlengths : (properties payments.toModel .sourcesAndDependencies).toOption.map
      (·.properties.length) =
        (properties payments.toModel .sourcesOnly).toOption.map (·.properties.length + 6) := by
    decide +kernel
  rw [hnarrow, hwide] at hlengths
  exact Option.some.inj hlengths

end FaultTolerance
