import FaultTolerance.Proofs.Derivation.Scopes
import FaultTolerance.Proofs.Derivation.Values
import Mathlib.Data.List.Perm.Basic

/-! What the order of a project's types means for its properties. Types without slashes in their names
that are all named differently offer no name twice, so the properties of types and methods are one
block for each type, in the order of the types (`ownItems_eq_flatMap`). Another order of the types moves
these blocks and the order of first use, and nothing else (`properties_perm`). -/
namespace FaultTolerance
open Java
set_option autoImplicit false

/-! ## The names of one type's properties -/

/-- The names of all properties that a type and its methods may have. -/
def tierNames (t : JavaType) : List String :=
  (Reach.ofType t.name :: t.methods.map fun m => .ofMethod t.name m.name).flatMap fun reach =>
    Catalog.annotations.flatMap fun spec =>
      spec.parameters.map fun p => (PropertyKey.parameter reach spec p).name

theorem mem_tierNames {t : JavaType} {name : String} :
    name ∈ tierNames t ↔ ∃ reach, (reach = .ofType t.name ∨
        ∃ m ∈ t.methods, reach = .ofMethod t.name m.name) ∧
      ∃ spec ∈ Catalog.annotations, ∃ p ∈ spec.parameters,
        name = (PropertyKey.parameter reach spec p).name := by
  simp only [tierNames, List.mem_flatMap, List.mem_cons, List.mem_map, eq_comm]

theorem of_mem_tierNames {t : JavaType} {name : String} (h : name ∈ tierNames t) :
    2 ≤ slashes name ∧ ∃ rest, name = t.name ++ "/" ++ rest := by
  obtain ⟨reach, hreach, spec, _, p, _, rfl⟩ := mem_tierNames.mp h
  rcases hreach with rfl | ⟨m, _, rfl⟩
  · refine ⟨?_, spec.simpleName ++ "/" ++ p.name, ?_⟩
    · simp only [PropertyKey.name, slashes_append, slashes_slash]
      omega
    · simp only [PropertyKey.name, String.append_assoc]
  · refine ⟨?_, m.name ++ "/" ++ spec.simpleName ++ "/" ++ p.name, ?_⟩
    · simp only [PropertyKey.name, slashes_append, slashes_slash]
      omega
    · simp only [PropertyKey.name, String.append_assoc]

theorem mem_tierNames_of_mem_offers {model : Model} {t : JavaType} {o : Occurrence} {f : Offer}
    (ho : o ∈ Occurrence.ofType model t t.methods) (hf : f ∈ o.offers model) :
    f.item.name ∈ tierNames t := by
  obtain ⟨ht, htarget, _, hs⟩ := Occurrence.mem_ofType.mp ho
  have hspec := Catalog.mem_of_resolve? hs
  subst ht
  rw [mem_tierNames]
  unfold Occurrence.offers at hf
  cases hk : o.target with
  | type =>
    rw [hk] at hf
    obtain ⟨p, hp, default, _, rfl⟩ := mem_offersOf.mp hf
    exact ⟨_, .inl rfl, o.spec, hspec, p, hp, rfl⟩
  | method m =>
    rw [hk] at hf htarget
    have hm := Occurrence.method_mem_targets.mp htarget
    rcases List.mem_append.mp hf with hf | hf
    · obtain ⟨p, hp, default, _, rfl⟩ := mem_offersOf.mp hf
      exact ⟨_, .inl rfl, o.spec, hspec, p, hp, rfl⟩
    · obtain ⟨p, hp, default, _, rfl⟩ := mem_offersOf.mp hf
      exact ⟨_, .inr ⟨m, hm, rfl⟩, o.spec, hspec, p, hp, rfl⟩
  | field _ =>
    rw [hk] at hf
    cases hf

theorem mem_tierNames_of_mem_itemsOf {model : Model} {t : JavaType} {i : ItemMetadata}
    (h : i ∈ itemsOf model t) : i.name ∈ tierNames t := by
  obtain ⟨f, hf, rfl⟩ := List.mem_map.mp h
  obtain ⟨o, ho, hf⟩ := List.mem_flatMap.mp hf
  exact mem_tierNames_of_mem_offers ho hf

/-- The properties of a type and of its methods, as some list of properties has them. -/
def tiersOf (t : JavaType) (items : List ItemMetadata) : List ItemMetadata :=
  items.filter fun i => (tierNames t).contains i.name

theorem tiersOf_append (t : JavaType) (items more : List ItemMetadata) :
    tiersOf t (items ++ more) = tiersOf t items ++ tiersOf t more :=
  List.filter_append ..

theorem tiersOf_tail (t : JavaType) {specs : List Catalog.Spec}
    (h : ∀ spec ∈ specs, spec ∈ Catalog.annotations) :
    tiersOf t (specs.flatMap Catalog.Spec.items ++ [nonFallbackProperty]) = [] := by
  have hfew : ∀ i ∈ specs.flatMap Catalog.Spec.items ++ [nonFallbackProperty],
      slashes i.name ≤ 1 := by
    intro i hi
    rcases List.mem_append.mp hi with hi | hi
    · obtain ⟨spec, hs, hi⟩ := List.mem_flatMap.mp hi
      rw [← items_annotationOffers] at hi
      obtain ⟨f, hf, rfl⟩ := List.mem_map.mp hi
      exact Nat.le_of_eq (slashes_of_mem_annotationOffers (h spec hs) hf)
    · rw [List.mem_singleton.mp hi, slashes_nonFallbackProperty]
      exact Nat.zero_le 1
  rw [tiersOf, List.filter_eq_nil_iff]
  intro i hi hc
  have htwo := (of_mem_tierNames (List.contains_iff_mem.mp hc)).1
  have hone := hfew i hi
  omega

/-! ## Types with names of their own -/

namespace MemoryModel

/-- Whether no two types have one name, and no type has a slash in its name. -/
structure OwnNames (m : MemoryModel) : Prop where
  nodup : (m.types.map (·.name)).Nodup
  slashless : ∀ t ∈ m.types, '/' ∉ t.name.toList

variable {m m' : MemoryModel}

theorem OwnNames.perm (h : m.OwnNames) (hperm : m.types.Perm m'.types) : m'.OwnNames where
  nodup := (hperm.map (·.name)).nodup_iff.mp h.nodup
  slashless t ht := h.slashless t (hperm.mem_iff.mpr ht)

/-- A name of one type's properties is a name of no other's. -/
theorem OwnNames.eq_of_mem_tierNames (h : m.OwnNames) {t t' : JavaType} (ht : t ∈ m.types)
    (ht' : t' ∈ m.types) {name : String} (hn : name ∈ tierNames t) (hn' : name ∈ tierNames t') :
    t = t' := by
  obtain ⟨_, rest, hr⟩ := of_mem_tierNames hn
  obtain ⟨_, rest', hr'⟩ := of_mem_tierNames hn'
  have howner : t.name.toList = t'.name.toList := by
    rw [← owner_append (h.slashless t ht), ← owner_append (h.slashless t' ht'), ← hr, ← hr']
  exact List.inj_on_of_nodup_map h.nodup ht ht' (String.toList_inj.mp howner)

/-- What a type's occurrences offer, the first of each name. -/
def blockOf (m : MemoryModel) (t : JavaType) : List ItemMetadata :=
  firstOfEach (·.name) (itemsOf m.toModel t)

theorem blockOf_eq (m m' : MemoryModel) : m.blockOf = m'.blockOf := rfl

theorem mem_tierNames_of_mem_blockOf {t : JavaType} {i : ItemMetadata} (h : i ∈ m.blockOf t) :
    i.name ∈ tierNames t :=
  mem_tierNames_of_mem_itemsOf ((FirstOfEach.firstOfEach_sublist _ _).subset h)

theorem OwnNames.ownItems_eq_flatMap (h : m.OwnNames) (scope : Scope) :
    m.ownItems scope = (m.types.filter fun t => scope.covers t.origin).flatMap m.blockOf := by
  have hne : m.types.Pairwise fun t t' => t ≠ t' :=
    List.Pairwise.of_map (·.name) (fun _ _ hne he => hne (congrArg _ he)) h.nodup
  apply FirstOfEach.firstOfEach_flatMap
  refine List.Pairwise.filter _ ?_
  refine hne.imp_of_mem ?_
  intro t t' ht ht' hne i hi i' hi' he
  have hn := mem_tierNames_of_mem_itemsOf hi
  have hn' := mem_tierNames_of_mem_itemsOf hi'
  rw [he] at hn'
  exact hne (h.eq_of_mem_tierNames ht ht' hn hn')

theorem OwnNames.tiersOf_ownItems (h : m.OwnNames) (scope : Scope) {t : JavaType}
    (ht : t ∈ m.types) :
    tiersOf t (m.ownItems scope) = if scope.covers t.origin then m.blockOf t else [] := by
  have hown : ∀ t' ∈ m.types.filter (fun t => scope.covers t.origin), ∀ i ∈ m.blockOf t',
      (tierNames t).contains i.name = (t'.name == t.name) := by
    intro t' ht' i hi
    have hn := mem_tierNames_of_mem_blockOf hi
    rw [Bool.eq_iff_iff, List.contains_iff_mem, beq_iff_eq]
    constructor
    · intro hi
      rw [h.eq_of_mem_tierNames ht (List.mem_of_mem_filter ht') hi hn]
    · intro he
      rw [List.inj_on_of_nodup_map h.nodup (List.mem_of_mem_filter ht') ht he] at hn
      exact hn
  have hone : (m.types.filter fun t => scope.covers t.origin).filter (·.name == t.name) =
      [t].filter fun t => scope.covers t.origin := by
    rw [← filter_eq_singleton h.nodup ht, List.filter_filter, List.filter_filter]
    simp only [Bool.and_comm]
  rw [h.ownItems_eq_flatMap, tiersOf, filter_flatMap_of_forall hown, hone]
  by_cases hc : scope.covers t.origin <;> simp [hc]

theorem OwnNames.tiersOf_properties (h : m.OwnNames) (hloaded : m.loaded = true) (scope : Scope)
    {t : JavaType} (ht : t ∈ m.types) :
    tiersOf t (m.toModel.naiveProperties (covered scope 0 m.types)).properties =
      if scope.covers t.origin then m.blockOf t else [] := by
  have hspecs : ∀ spec ∈ usedIn (m.toModel.occurrences (covered scope 0 m.types)),
      spec ∈ Catalog.annotations := fun spec hs => spec_mem_of_mem_usedIn hs
  rw [properties_covered hloaded, List.append_assoc, tiersOf_append, tiersOf_tail t hspecs,
    List.append_nil,
    h.tiersOf_ownItems scope ht]

/-! ## Another order -/

theorem occurrences_perm (hloaded : m.loaded = true) (hloaded' : m'.loaded = true)
    (hperm : m.types.Perm m'.types) (scope : Scope) :
    (m.toModel.occurrences (covered scope 0 m.types)).Perm
      (m'.toModel.occurrences (covered scope 0 m'.types)) := by
  rw [occurrences_covered hloaded, occurrences_covered hloaded']
  exact (hperm.filter _).flatMap_right _

theorem usedIn_perm {found found' : List Occurrence} (h : found.Perm found') :
    (usedIn found).Perm (usedIn found') := by
  rw [List.perm_ext_iff_of_nodup (nodup_usedIn _) (nodup_usedIn _)]
  intro spec
  rw [mem_usedIn, mem_usedIn]
  simp only [h.mem_iff]

end MemoryModel

theorem Analyzer.properties_of_loaded {m : MemoryModel} (h : m.loaded = true) (scope : Scope) :
    properties m.toModel scope =
      .ok (m.toModel.naiveProperties (MemoryModel.covered scope 0 m.types)) := by
  unfold properties
  rw [projectProperties_of_resolve (MemoryModel.resolveProject_toModel h scope)]
  rfl

theorem Analyzer.properties_of_unloaded {m : MemoryModel} (h : m.loaded = false) (scope : Scope) :
    properties m.toModel scope = .error (.typeModelUnavailable (.projectNotLoaded m.project)) := by
  have hresolve : m.toModel.resolveProject scope = .error (.projectNotLoaded m.project) := by
    change m.whenLoaded _ = _
    simp [MemoryModel.whenLoaded, h]
  unfold properties projectProperties
  rw [hresolve]
  rfl

/-- Two projects in memory that hold the same types, each under a name of its own and without a slash,
have the same properties and the same hints, whatever the order of the types: the properties are the
same ones with everything that they say, and those of one type and its methods come in the same order. -/
theorem Analyzer.properties_perm (m m' : MemoryModel) (hperm : m.types.Perm m'.types)
    (hnodup : (m.types.map (·.name)).Nodup) (hslash : ∀ t ∈ m.types, '/' ∉ t.name.toList)
    (hloaded : m.loaded = m'.loaded) (scope : Scope) :
    (m.loaded = false ∧
      properties m.toModel scope =
        .error (.typeModelUnavailable (.projectNotLoaded m.project)) ∧
      properties m'.toModel scope =
        .error (.typeModelUnavailable (.projectNotLoaded m'.project))) ∨
    (m.loaded = true ∧ ∃ info info', properties m.toModel scope = .ok info ∧
      properties m'.toModel scope = .ok info' ∧
      info.properties.Perm info'.properties ∧ info.hints = info'.hints ∧
      ∀ t ∈ m.types, tiersOf t info.properties = tiersOf t info'.properties) := by
  cases hl : m.loaded with
  | false =>
    exact .inl ⟨rfl, properties_of_unloaded hl scope, properties_of_unloaded (hloaded ▸ hl) scope⟩
  | true =>
    have hl' : m'.loaded = true := hloaded ▸ hl
    have hown : m.OwnNames := ⟨hnodup, hslash⟩
    have hown' := hown.perm hperm
    have hused := MemoryModel.usedIn_perm (MemoryModel.occurrences_perm hl hl' hperm scope)
    refine .inr ⟨rfl, _, _, properties_of_loaded hl scope, properties_of_loaded hl' scope,
      ?_, ?_, ?_⟩
    · rw [MemoryModel.properties_covered hl, MemoryModel.properties_covered hl',
        hown.ownItems_eq_flatMap, hown'.ownItems_eq_flatMap, MemoryModel.blockOf_eq m' m]
      refine (List.Perm.append ?_ (hused.flatMap_right _)).append_right _
      exact (hperm.filter _).flatMap_right _
    · rw [hints_eq, hints_eq, hused.any_eq]
    · intro t ht
      rw [hown.tiersOf_properties hl scope ht,
        hown'.tiersOf_properties hl' scope (hperm.mem_iff.mp ht), MemoryModel.blockOf_eq m' m]

/-- Two source types and one of a dependency. -/
def bookingTypes : List JavaType := [
  { name := "org.acme.Booking", kind := .classType, origin := .source "file:///Booking.java"
    annotations := [{ name := "Bulkhead", members := [{ name := "value", value := .number "7" }] }]
    methods := [{ name := "book", returnType := "void", parameterTypes := []
                  annotations := [{ name := "Bulkhead" }] }] },
  { name := "org.bank.Gateway", kind := .interfaceType, origin := .binary
    annotations := [{ name := "Timeout" }] },
  { name := "org.acme.Seats", kind := .classType, origin := .source "file:///Seats.java"
    fields := [{ name := "free", type := "int", annotations := [{ name := "Bulkhead" }] }] }]

def bookings : MemoryModel := { project := "bookings", types := bookingTypes }

def bookingsReversed : MemoryModel := { project := "bookings", types := bookingTypes.reverse }

theorem Analyzer.properties_perm_bookings :
    ∃ info info', properties bookings.toModel .sourcesAndDependencies = .ok info ∧
      properties bookingsReversed.toModel .sourcesAndDependencies = .ok info' ∧
      info.properties.Perm info'.properties ∧ info.hints = info'.hints ∧
      (∀ t ∈ bookingTypes, tiersOf t info.properties = tiersOf t info'.properties) ∧
      info.properties ≠ info'.properties := by
  have hperm : bookings.types.Perm bookingsReversed.types := (List.reverse_perm _).symm
  obtain ⟨hl, _⟩ | ⟨_, info, info', hinfo, hinfo', hproperties, hhints, htiers⟩ :=
    properties_perm bookings bookingsReversed hperm (by decide) (by decide) rfl
      .sourcesAndDependencies
  · cases hl
  · have hmoved : (properties bookings.toModel .sourcesAndDependencies).toOption.map
        (·.properties.map (·.name)) ≠
          (properties bookingsReversed.toModel .sourcesAndDependencies).toOption.map
            (·.properties.map (·.name)) := by
      decide +kernel
    rw [hinfo, hinfo'] at hmoved
    refine ⟨info, info', hinfo, hinfo', hproperties, hhints, htiers, fun he => hmoved ?_⟩
    change some (info.properties.map (·.name)) = some (info'.properties.map (·.name))
    rw [he]

end FaultTolerance
