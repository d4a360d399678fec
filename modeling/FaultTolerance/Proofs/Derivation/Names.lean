import FaultTolerance.Model.Memory
import FaultTolerance.Proofs.Derivation.KeyName
import FaultTolerance.Proofs.Derivation.Refinement

/-! Which properties a project has. `Model.Uses` says which types and methods an annotation reaches,
`Model.HasProperty` which keys follow from that, and the offers of the derivation have exactly these
keys. Where no type or method has a slash in its name, one key stands behind each name, so that what
is dropped for its name is dropped for its key. -/
namespace FaultTolerance
open Java
set_option autoImplicit false

/-! ## What an annotation reaches -/

/-- Whether a type that can be read uses an annotation within a reach. The reach of a type takes in
the uses on its methods. -/
inductive Model.Uses (model : Model) (ids : List Nat) (spec : Catalog.Spec) : Reach → Prop
  | ofType {t : JavaType} {methods : List Method} (hr : model.Reads ids t methods)
      (hc : model.Carries (.type t) spec ∨ ∃ m ∈ methods, model.Carries (.method t m) spec) :
      Uses model ids spec (.ofType t.name)
  | ofMethod {t : JavaType} {methods : List Method} {m : Method} (hr : model.Reads ids t methods)
      (hm : m ∈ methods) (hc : model.Carries (.method t m) spec) :
      Uses model ids spec (.ofMethod t.name m.name)
  | everywhere {t : JavaType} {methods : List Method} (hr : model.Reads ids t methods)
      (hc : model.Carries (.type t) spec ∨ (∃ m ∈ methods, model.Carries (.method t m) spec) ∨
        ∃ f ∈ t.fields, model.Carries (.field t f) spec) : Uses model ids spec .everywhere

/-- The keys of a project's properties: each parameter with a default, wherever its annotation
reaches, and the switch. -/
def Model.HasProperty (model : Model) (ids : List Nat) : PropertyKey → Prop
  | .parameter reach spec p => model.Uses ids spec reach ∧ p ∈ spec.parameters ∧ p.default?.isSome
  | .nonFallback => True

def Occurrence.reaches (o : Occurrence) : List Reach :=
  match o.target with
  | .type => [.ofType o.declaringType.name, .everywhere]
  | .method m =>
    [.ofType o.declaringType.name, .ofMethod o.declaringType.name m.name, .everywhere]
  | .field _ => [.everywhere]

theorem Occurrence.everywhere_mem_reaches (o : Occurrence) : Reach.everywhere ∈ o.reaches := by
  unfold reaches
  cases o.target <;> simp

theorem Occurrence.name_of_ofType_mem_reaches {o : Occurrence} {type : String}
    (h : .ofType type ∈ o.reaches) : o.declaringType.name = type := by
  unfold reaches at h
  cases hk : o.target <;> simp [hk] at h <;> exact h.symm

theorem Occurrence.ofMethod_mem_reaches {o : Occurrence} {type method : String}
    (h : .ofMethod type method ∈ o.reaches) :
    o.declaringType.name = type ∧ ∃ m, o.target = .method m ∧ m.name = method := by
  unfold reaches at h
  cases hk : o.target with
  | type => simp [hk] at h
  | method m =>
    simp [hk] at h
    exact ⟨h.1.symm, m, rfl, h.2.symm⟩
  | field f => simp [hk] at h

theorem Model.Reads.exists_occurrence {model : Model} {ids : List Nat} {spec : Catalog.Spec}
    {t : JavaType} {methods : List Method} {target : Target} (hr : model.Reads ids t methods)
    (htarget : target ∈ Occurrence.targets t methods)
    (hc : model.Carries (target.element t) spec) :
    ∃ o ∈ model.occurrences ids, o.spec = spec ∧ o.declaringType = t ∧ o.target = target := by
  obtain ⟨a, ha, hs⟩ := hc
  have ho : ⟨spec, a, t, target⟩ ∈ Occurrence.ofType model t methods :=
    Occurrence.mem_ofType.mpr ⟨rfl, htarget, ha, hs⟩
  exact ⟨_, Model.mem_occurrences.mpr ⟨t, methods, hr, ho⟩, rfl, rfl, rfl⟩

theorem Model.Uses.exists_occurrence {model : Model} {ids : List Nat} {spec : Catalog.Spec}
    {reach : Reach} (h : model.Uses ids spec reach) :
    ∃ o ∈ model.occurrences ids, o.spec = spec ∧ reach ∈ o.reaches := by
  cases h with
  | @ofType t methods hr hc =>
    rcases hc with hc | ⟨m, hm, hc⟩
    · obtain ⟨o, ho, hs, rfl, hk⟩ := hr.exists_occurrence (Occurrence.type_mem_targets t methods) hc
      exact ⟨o, ho, hs, by simp [Occurrence.reaches, hk]⟩
    · obtain ⟨o, ho, hs, rfl, hk⟩ := hr.exists_occurrence (Occurrence.method_mem_targets.mpr hm) hc
      exact ⟨o, ho, hs, by simp [Occurrence.reaches, hk]⟩
  | ofMethod hr hm hc =>
    obtain ⟨o, ho, hs, rfl, hk⟩ := hr.exists_occurrence (Occurrence.method_mem_targets.mpr hm) hc
    exact ⟨o, ho, hs, by simp [Occurrence.reaches, hk]⟩
  | @everywhere t methods hr hc =>
    rcases hc with hc | ⟨m, hm, hc⟩ | ⟨f, hf, hc⟩
    · obtain ⟨o, ho, hs, _⟩ := hr.exists_occurrence (Occurrence.type_mem_targets t methods) hc
      exact ⟨o, ho, hs, o.everywhere_mem_reaches⟩
    · obtain ⟨o, ho, hs, _⟩ := hr.exists_occurrence (Occurrence.method_mem_targets.mpr hm) hc
      exact ⟨o, ho, hs, o.everywhere_mem_reaches⟩
    · obtain ⟨o, ho, hs, _⟩ := hr.exists_occurrence (Occurrence.field_mem_targets.mpr hf) hc
      exact ⟨o, ho, hs, o.everywhere_mem_reaches⟩

theorem Model.uses_of_mem_reaches {model : Model} {ids : List Nat} {o : Occurrence}
    (ho : o ∈ model.occurrences ids) {reach : Reach} (h : reach ∈ o.reaches) :
    model.Uses ids o.spec reach := by
  obtain ⟨t, methods, hr, ho⟩ := Model.mem_occurrences.mp ho
  have hc := Occurrence.carries_of_mem ho
  obtain ⟨rfl, htarget, _⟩ := Occurrence.mem_ofType.mp ho
  unfold Occurrence.reaches at h
  cases hk : o.target with
  | type =>
    rw [hk] at h hc
    rcases List.mem_pair.mp h with rfl | rfl
    · exact .ofType hr (.inl hc)
    · exact .everywhere hr (.inl hc)
  | method m =>
    rw [hk] at h hc htarget
    have hm := Occurrence.method_mem_targets.mp htarget
    rcases List.mem_cons.mp h with rfl | h
    · exact .ofType hr (.inr ⟨m, hm, hc⟩)
    · rcases List.mem_pair.mp h with rfl | rfl
      · exact .ofMethod hr hm hc
      · exact .everywhere hr (.inr (.inl ⟨m, hm, hc⟩))
  | field f =>
    rw [hk] at h hc htarget
    rw [List.mem_singleton.mp h]
    exact .everywhere hr (.inr (.inr ⟨f, Occurrence.field_mem_targets.mp htarget, hc⟩))

/-! ## The keys on offer -/

theorem mem_keys_offersOf {reach : Reach} {spec : Catalog.Spec}
    {item : Catalog.Parameter → String → ItemMetadata} {k : PropertyKey} :
    k ∈ (offersOf reach spec item).map (·.key) ↔
      ∃ p ∈ spec.parameters, p.default?.isSome ∧ k = .parameter reach spec p := by
  rw [List.mem_map]
  constructor
  · rintro ⟨f, hf, rfl⟩
    obtain ⟨p, hp, default, hd, rfl⟩ := mem_offersOf.mp hf
    exact ⟨p, hp, by rw [hd, Option.isSome_some], rfl⟩
  · rintro ⟨p, hp, hd, rfl⟩
    obtain ⟨default, hd⟩ := Option.isSome_iff_exists.mp hd
    exact ⟨_, mem_offersOf.mpr ⟨p, hp, default, hd, rfl⟩, rfl⟩

theorem Occurrence.mem_keys_offers {model : Model} {o : Occurrence} {k : PropertyKey} :
    k ∈ (o.offers model ++ annotationOffers o.spec).map (·.key) ↔
      ∃ reach ∈ o.reaches, ∃ p ∈ o.spec.parameters, p.default?.isSome ∧
        k = .parameter reach o.spec p := by
  unfold Occurrence.offers Occurrence.reaches annotationOffers
  cases o.target with
  | type =>
    rw [List.map_append, List.mem_append, typeOffers, mem_keys_offersOf, mem_keys_offersOf]
    simp only [List.exists_mem_cons_iff, List.not_mem_nil, false_and, exists_false, or_false]
  | method m =>
    rw [List.map_append, List.map_append, List.mem_append, List.mem_append, typeOffers,
      methodOffers, mem_keys_offersOf, mem_keys_offersOf, mem_keys_offersOf]
    simp only [List.exists_mem_cons_iff, List.not_mem_nil, false_and, exists_false, or_false,
      or_assoc]
  | field f =>
    rw [List.nil_append, mem_keys_offersOf]
    simp only [List.exists_mem_cons_iff, List.not_mem_nil, false_and, exists_false, or_false]

theorem mem_usedIn {found : List Occurrence} {spec : Catalog.Spec} :
    spec ∈ usedIn found ↔ ∃ o ∈ found, o.spec = spec := by
  unfold usedIn
  rw [List.mem_eraseDups, List.mem_map]

theorem mem_keys_offersIn {model : Model} {found : List Occurrence} {k : PropertyKey} :
    k ∈ (offersIn model found).map (·.key) ↔
      (∃ o ∈ found, k ∈ (o.offers model ++ annotationOffers o.spec).map (·.key)) ∨
        k = .nonFallback := by
  unfold offersIn
  simp only [List.map_append, List.map_flatMap, List.map_singleton, List.mem_append,
    List.mem_flatMap, List.mem_singleton]
  constructor
  · rintro ((⟨o, ho, hk⟩ | ⟨spec, hs, hk⟩) | rfl)
    · exact .inl ⟨o, ho, .inl hk⟩
    · obtain ⟨o, ho, rfl⟩ := mem_usedIn.mp hs
      exact .inl ⟨o, ho, .inr hk⟩
    · exact .inr rfl
  · rintro (⟨o, ho, hk | hk⟩ | rfl)
    · exact .inl (.inl ⟨o, ho, hk⟩)
    · exact .inl (.inr ⟨o.spec, mem_usedIn.mpr ⟨o, ho, rfl⟩, hk⟩)
    · exact .inr rfl

/-- The keys on offer are those that the uses of annotations call for. -/
theorem Model.mem_keys_iff {model : Model} {ids : List Nat} {k : PropertyKey} :
    k ∈ (offersIn model (model.occurrences ids)).map (·.key) ↔ model.HasProperty ids k := by
  rw [mem_keys_offersIn]
  simp only [Occurrence.mem_keys_offers]
  cases k with
  | nonFallback =>
    simp only [Model.HasProperty, or_true]
  | parameter reach spec p =>
    unfold Model.HasProperty
    constructor
    · rintro (⟨o, ho, reach', hreach, p', hp, hd, hk⟩ | hk)
      · obtain ⟨rfl, rfl, rfl⟩ := PropertyKey.parameter.inj hk
        exact ⟨Model.uses_of_mem_reaches ho hreach, hp, hd⟩
      · cases hk
    · rintro ⟨hu, hp, hd⟩
      obtain ⟨o, ho, rfl, hreach⟩ := hu.exists_occurrence
      exact .inl ⟨o, ho, reach, hreach, p, hp, hd, rfl⟩

theorem name_of_mem_offersIn {model : Model} {found : List Occurrence} {f : Offer}
    (h : f ∈ offersIn model found) : f.item.name = f.key.name := by
  have hof : ∀ {reach spec item}, f ∈ offersOf reach spec item →
      (∀ p value, (item p value).name = (PropertyKey.parameter reach spec p).name) →
      f.item.name = f.key.name := by
    intro reach spec item hf hname
    obtain ⟨p, _, default, _, rfl⟩ := mem_offersOf.mp hf
    exact hname p default
  unfold offersIn at h
  simp only [List.mem_append, List.mem_flatMap, List.mem_singleton] at h
  rcases h with (⟨o, _, hf⟩ | ⟨spec, _, hf⟩) | rfl
  · unfold Occurrence.offers at hf
    cases hk : o.target with
    | type =>
      rw [hk] at hf
      exact hof hf fun _ _ => rfl
    | method m =>
      rw [hk] at hf
      rcases List.mem_append.mp hf with hf | hf
      · exact hof hf fun _ _ => rfl
      · exact hof hf fun _ _ => rfl
    | field _ =>
      rw [hk] at hf
      exact absurd hf List.not_mem_nil
  · exact hof hf fun _ _ => rfl
  · rfl

/-! ## Names and keys -/

/-- Whether no type that can be read, and none of its methods, has a slash in its name. -/
def Model.Slashless (model : Model) (ids : List Nat) : Prop :=
  ∀ t methods, model.Reads ids t methods →
    '/' ∉ t.name.toList ∧ ∀ m ∈ methods, '/' ∉ m.name.toList

theorem Model.HasProperty.slashless {model : Model} {ids : List Nat} (h : model.Slashless ids)
    {k : PropertyKey} (hk : model.HasProperty ids k) : k.Slashless := by
  cases k with
  | nonFallback => trivial
  | parameter reach spec p =>
    obtain ⟨hu, hp, _⟩ := hk
    have hspec : spec ∈ Catalog.annotations := by
      obtain ⟨o, ho, rfl, _⟩ := hu.exists_occurrence
      obtain ⟨t, methods, _, ho⟩ := Model.mem_occurrences.mp ho
      exact Occurrence.spec_mem_of_mem_ofType ho
    refine ⟨?_, hspec, hp⟩
    intro s hs
    cases hu with
    | ofType hr hc =>
      rw [List.mem_singleton.mp hs]
      exact (h _ _ hr).1
    | ofMethod hr hm hc =>
      rcases List.mem_pair.mp hs with rfl | rfl
      · exact (h _ _ hr).1
      · exact (h _ _ hr).2 _ hm
    | everywhere hr hc => exact absurd hs List.not_mem_nil

theorem Model.naiveProperties_by_key {model : Model} {ids : List Nat} (h : model.Slashless ids) :
    (model.naiveProperties ids).properties =
      (firstOfEach (·.key) (offersIn model (model.occurrences ids))).map (·.item) := by
  have hkey : ∀ f ∈ offersIn model (model.occurrences ids), f.key.Slashless := fun f hf =>
    (Model.mem_keys_iff.mp (List.mem_map_of_mem hf)).slashless h
  unfold Model.naiveProperties collect Collector.toProjectInfo
  simp only
  rw [FirstOfEach.firstOfEach_map]
  congr 1
  apply FirstOfEach.firstOfEach_congr
  intro f hf f' hf'
  rw [name_of_mem_offersIn hf, name_of_mem_offersIn hf']
  exact ⟨PropertyKey.eq_of_name (hkey f hf) (hkey f' hf'), congrArg PropertyKey.name⟩

theorem Model.mem_names_iff {model : Model} {ids : List Nat} {name : String} :
    name ∈ (model.naiveProperties ids).properties.map (·.name) ↔
      ∃ k, model.HasProperty ids k ∧ k.name = name := by
  unfold Model.naiveProperties collect Collector.toProjectInfo
  simp only
  rw [FirstOfEach.mem_map_firstOfEach, List.map_map, List.mem_map]
  constructor
  · rintro ⟨f, hf, rfl⟩
    exact ⟨f.key, Model.mem_keys_iff.mp (List.mem_map_of_mem hf), (name_of_mem_offersIn hf).symm⟩
  · rintro ⟨k, hk, rfl⟩
    obtain ⟨f, hf, rfl⟩ := List.mem_map.mp (Model.mem_keys_iff.mpr hk)
    exact ⟨f, hf, name_of_mem_offersIn hf⟩

theorem Model.HasProperty.not_fallbackMethod {model : Model} {ids : List Nat}
    (h : model.Slashless ids) {k : PropertyKey} (hk : model.HasProperty ids k) (stem : String) :
    k.name ≠ stem ++ "/" ++ Catalog.fallbackMethod := by
  intro he
  have hs := hk.slashless h
  have hlast := PropertyKey.getLast?_segments hs (by decide) he
  cases k with
  | nonFallback =>
    have : ("MP_Fault_Tolerance_NonFallback_Enabled" : String) = "fallbackMethod" :=
      Option.some.inj hlast
    exact absurd this (by decide)
  | parameter reach spec p =>
    obtain ⟨_, hspec, _⟩ := hs
    obtain ⟨_, hp, hd⟩ := hk
    have hname : p.name = Catalog.fallbackMethod := by
      simpa [PropertyKey.segments] using hlast
    rw [Catalog.default?_fallbackMethod spec hspec p hp hname] at hd
    exact Bool.noConfusion hd

/-- Where no type or method has a slash in its name, the properties of a project have distinct
names, which are those of the keys that the uses of annotations call for. One such key stands behind
each name, so an offer is dropped only for an earlier one of its own key, and no property is named
for the parameter that has no default. -/
theorem projectProperties_names (model : Model) (scope : Scope) (ids : List Nat)
    (hids : model.resolveProject scope = .ok ids) (hslash : model.Slashless ids) :
    ∃ info, projectProperties model scope = .ok info ∧
      (info.properties.map (·.name)).Nodup ∧
      (∀ i ∈ info.properties, ∃! k, model.HasProperty ids k ∧ k.name = i.name) ∧
      (∀ k, model.HasProperty ids k → ∃ i ∈ info.properties, i.name = k.name) ∧
      (∀ f ∈ offersIn model (model.occurrences ids),
        model.HasProperty ids f.key ∧ f.item.name = f.key.name) ∧
      info.properties =
        (firstOfEach (·.key) (offersIn model (model.occurrences ids))).map (·.item) ∧
      ∀ i ∈ info.properties, ∀ stem, i.name ≠ stem ++ "/" ++ Catalog.fallbackMethod := by
  have hexists : ∀ i ∈ (model.naiveProperties ids).properties,
      ∃ k, model.HasProperty ids k ∧ k.name = i.name := fun i hi =>
    Model.mem_names_iff.mp (List.mem_map_of_mem hi)
  refine ⟨model.naiveProperties ids, ?_, ?_, ?_, ?_, ?_, Model.naiveProperties_by_key hslash, ?_⟩
  · exact projectProperties_of_resolve hids
  · exact FirstOfEach.nodup_map_firstOfEach _ _
  · intro i hi
    obtain ⟨k, hk, hn⟩ := hexists i hi
    refine ⟨k, ⟨hk, hn⟩, ?_⟩
    rintro k' ⟨hk', hn'⟩
    exact PropertyKey.eq_of_name (hk'.slashless hslash) (hk.slashless hslash) (hn'.trans hn.symm)
  · intro k hk
    exact List.mem_map.mp (Model.mem_names_iff.mpr ⟨k, hk, rfl⟩)
  · intro f hf
    exact ⟨Model.mem_keys_iff.mp (List.mem_map_of_mem hf), name_of_mem_offersIn hf⟩
  · intro i hi stem he
    obtain ⟨k, hk, hn⟩ := hexists i hi
    exact hk.not_fallbackMethod hslash stem (hn.trans he)

def placeOrder : Method where
  name := "place"
  returnType := "void"
  parameterTypes := []
  annotations := [{ name := "Fallback", members := [⟨"fallbackMethod", .string "queue", none⟩] },
    { name := "Bulkhead", members := [⟨"value", .number "5", none⟩] }]

/-- A resource with a policy on the type, the same one on a method, and a fallback whose required
member is written. -/
def orderResource : JavaType where
  name := "org.acme.OrderResource"
  kind := .classType
  origin := .source "file:///OrderResource.java"
  annotations := [{ name := "Bulkhead" }]
  methods := [placeOrder, { name := "queue", returnType := "void", parameterTypes := [] }]

def orders : Model := ((MemoryModel.named "orders").addType orderResource).2.toModel

theorem reads_orders {t : JavaType} {methods : List Method} :
    orders.Reads [0] t methods ↔ t = orderResource ∧ methods = orderResource.methods := by
  constructor
  · rintro ⟨id, hid, ht, hm⟩
    obtain rfl := List.mem_singleton.mp hid
    cases ht
    cases hm
    exact ⟨rfl, rfl⟩
  · rintro ⟨rfl, rfl⟩
    exact ⟨0, List.mem_singleton.mpr rfl, rfl, rfl⟩

theorem slashless_orders : orders.Slashless [0] := by
  intro t methods hr
  obtain ⟨rfl, rfl⟩ := reads_orders.mp hr
  decide

theorem placeOrder_carries_bulkhead :
    orders.Carries (.method orderResource placeOrder) Catalog.bulkhead :=
  ⟨_, List.mem_cons_of_mem _ List.mem_cons_self, by decide +kernel⟩

theorem projectProperties_names_orders :
    ∃ info, projectProperties orders .sourcesOnly = .ok info ∧
      (info.properties.map (·.name)).Nodup ∧
      (∃ i ∈ info.properties, i.name = "org.acme.OrderResource/place/Bulkhead/value") ∧
      ∀ i ∈ info.properties, i.name ≠ "org.acme.OrderResource/place/Fallback/fallbackMethod" := by
  obtain ⟨info, hinfo, hnodup, _, hall, _, _, hnot⟩ :=
    projectProperties_names orders .sourcesOnly [0] rfl slashless_orders
  refine ⟨info, hinfo, hnodup, ?_, ?_⟩
  · have hr : orders.Reads [0] orderResource orderResource.methods := reads_orders.mpr ⟨rfl, rfl⟩
    exact hall (.parameter _ Catalog.bulkhead Catalog.bulkhead.parameters[0])
      ⟨.ofMethod hr List.mem_cons_self placeOrder_carries_bulkhead, List.mem_cons_self, rfl⟩
  · intro i hi
    exact hnot i hi "org.acme.OrderResource/place/Fallback"

end FaultTolerance
