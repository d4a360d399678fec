import FaultTolerance.Proofs.Derivation.Names

/-! The end of a property list. Whatever the names of types and methods are, a property of a type or
a method has two slashes or more in its name, one for all uses of an annotation has one, and the
switch has none. So nothing that comes before keeps these last ones out
(`projectProperties_tail`). -/
namespace FaultTolerance
open Java
set_option autoImplicit false

/-! ## Counting slashes -/

def slashes (name : String) : Nat := name.toList.count '/'

theorem slashes_append (a b : String) : slashes (a ++ b) = slashes a + slashes b := by
  unfold slashes
  rw [String.toList_append, List.count_append]

theorem slashes_slash : slashes "/" = 1 := rfl

theorem slashes_eq_zero {name : String} (h : '/' ∉ name.toList) : slashes name = 0 :=
  List.count_eq_zero_of_not_mem h

/-- An offer of an occurrence is for a parameter of its annotation. Two slashes in its name are no
part of the names that the name is made of. -/
theorem parameter_of_mem_offers {model : Model} {o : Occurrence} {f : Offer}
    (h : f ∈ o.offers model) :
    ∃ p ∈ o.spec.parameters, f.hint? = p.hint.map (·.toItemHint) ∧ 2 ≤ slashes f.item.name := by
  have hof : ∀ {reach item}, f ∈ offersOf reach o.spec item →
      (∀ p value, 2 ≤ slashes (item p value).name) →
      ∃ p ∈ o.spec.parameters, f.hint? = p.hint.map (·.toItemHint) ∧ 2 ≤ slashes f.item.name := by
    intro reach item hf hname
    obtain ⟨p, hp, default, _, rfl⟩ := mem_offersOf.mp hf
    exact ⟨p, hp, rfl, hname p default⟩
  have htype : ∀ p value, 2 ≤ slashes ((Tier.ofType o.declaringType o.spec).property p value).name := by
    intro p value
    simp only [Tier.property, Tier.ofType, slashes_append, slashes_slash]
    omega
  unfold Occurrence.offers at h
  cases hk : o.target with
  | type =>
    rw [hk] at h
    exact hof h fun p _ => htype p _
  | method m =>
    rw [hk] at h
    rcases List.mem_append.mp h with h | h
    · exact hof h fun p _ => htype p _
    · refine hof h fun p value => ?_
      simp only [Tier.property, Tier.ofMethod, slashes_append, slashes_slash]
      omega
  | field _ =>
    rw [hk] at h
    cases h

theorem slashes_of_mem_annotationOffers {spec : Catalog.Spec} (hs : spec ∈ Catalog.annotations)
    {f : Offer} (h : f ∈ annotationOffers spec) : slashes f.item.name = 1 := by
  obtain ⟨p, hp, default, _, rfl⟩ := mem_offersOf.mp h
  have hspec := slashes_eq_zero (Catalog.slash_notMem_simpleName spec hs)
  have hparam := slashes_eq_zero (Catalog.slash_notMem_parameterName spec hs p hp)
  simp only [globalProperty, slashes_append, slashes_slash, hspec, hparam]

theorem slashes_nonFallbackProperty : slashes nonFallbackProperty.name = 0 :=
  slashes_eq_zero (by decide)

/-! ## The last offers -/

/-- What the catalog says of an annotation's parameters, those that have a default. -/
def Catalog.Spec.items (spec : Catalog.Spec) : List ItemMetadata :=
  spec.parameters.filterMap fun p => p.default?.map fun default =>
    { name := spec.simpleName ++ "/" ++ p.name
      type := p.type
      description := some p.documentation
      sourceType := some spec.qualifiedName
      sourceMethod := p.sourceMethod
      defaultValue := some default
      binary := false }

theorem items_annotationOffers (spec : Catalog.Spec) :
    (annotationOffers spec).map (·.item) = spec.items := by
  unfold annotationOffers offersOf Catalog.Spec.items
  rw [List.map_filterMap]
  congr 1
  funext p
  cases p.default? <;> rfl

theorem spec_mem_of_mem_usedIn {model : Model} {ids : List Nat} {spec : Catalog.Spec}
    (h : spec ∈ usedIn (model.occurrences ids)) : spec ∈ Catalog.annotations := by
  obtain ⟨o, ho, rfl⟩ := mem_usedIn.mp h
  obtain ⟨t, methods, _, ho⟩ := Model.mem_occurrences.mp ho
  exact Occurrence.spec_mem_of_mem_ofType ho

theorem nodup_usedIn (found : List Occurrence) : (usedIn found).Nodup := by
  have h := FirstOfEach.nodup_map_firstOfEach id (found.map (·.spec))
  rwa [List.map_id] at h

/-- The keys of the offers for all uses of some annotations, followed by the switch, are distinct. -/
theorem nodup_tailKeys {specs : List Catalog.Spec} (hnodup : specs.Nodup)
    (hspecs : ∀ spec ∈ specs, spec ∈ Catalog.annotations) :
    ((specs.flatMap annotationOffers).map (·.key) ++ [PropertyKey.nonFallback]).Nodup := by
  have hone : ∀ spec ∈ specs, ((annotationOffers spec).map (·.key)).Nodup := by
    intro spec hs
    have hparams : spec.parameters.Nodup :=
      .of_map _ (Catalog.nodup_parameterNames spec (hspecs spec hs))
    have hkeys : (annotationOffers spec).map (·.key) =
        (spec.parameters.filter (·.default?.isSome)).map (.parameter .everywhere spec) := by
      unfold annotationOffers offersOf
      rw [List.map_filterMap, ← List.filterMap_eq_map, List.filterMap_filter]
      congr 1
      funext p
      cases p.default? <;> rfl
    rw [hkeys]
    exact (hparams.filter _).map fun _ _ he => (PropertyKey.parameter.inj he).2.2
  rw [List.map_flatMap]
  refine List.nodup_append.mpr ⟨List.nodup_flatMap.mpr ⟨hone, ?_⟩, List.nodup_singleton _, ?_⟩
  · refine hnodup.imp fun hne => ?_
    intro k hk hk'
    obtain ⟨p, _, _, rfl⟩ := mem_keys_offersOf.mp hk
    obtain ⟨p', _, _, he⟩ := mem_keys_offersOf.mp hk'
    exact hne (PropertyKey.parameter.inj he).2.1
  · rintro k hk k' hk' rfl
    rw [List.mem_singleton.mp hk'] at hk
    obtain ⟨spec, _, hk⟩ := List.mem_flatMap.mp hk
    obtain ⟨p, _, _, he⟩ := mem_keys_offersOf.mp hk
    cases he

/-- The offers that come last: those for all uses of some annotations, and the switch. -/
def tailOffers (specs : List Catalog.Spec) : List Offer :=
  specs.flatMap annotationOffers ++ [⟨.nonFallback, nonFallbackProperty, none⟩]

section tail
variable {model : Model} {ids : List Nat}

theorem offersIn_eq_append_tail (found : List Occurrence) :
    offersIn model found = found.flatMap (·.offers model) ++ tailOffers (usedIn found) :=
  List.append_assoc ..

theorem items_tailOffers (specs : List Catalog.Spec) :
    (tailOffers specs).map (·.item) =
      specs.flatMap Catalog.Spec.items ++ [nonFallbackProperty] := by
  unfold tailOffers
  rw [List.map_append, List.map_flatMap, List.map_singleton]
  simp only [items_annotationOffers]

theorem slashes_of_mem_tailOffers {f : Offer}
    (h : f ∈ tailOffers (usedIn (model.occurrences ids))) : slashes f.item.name ≤ 1 := by
  rcases List.mem_append.mp h with h | h
  · obtain ⟨spec, hs, hf⟩ := List.mem_flatMap.mp h
    exact Nat.le_of_eq (slashes_of_mem_annotationOffers (spec_mem_of_mem_usedIn hs) hf)
  · rw [List.mem_singleton.mp h, slashes_nonFallbackProperty]
    exact Nat.zero_le 1

/-- Whatever its names are, an offer of an occurrence has none of the last names. -/
theorem name_ne_of_mem_tailOffers {f f' : Offer} {o : Occurrence} (h : f ∈ o.offers model)
    (h' : f' ∈ tailOffers (usedIn (model.occurrences ids))) : f.item.name ≠ f'.item.name := by
  intro he
  obtain ⟨_, _, _, hfront⟩ := parameter_of_mem_offers h
  have htail := slashes_of_mem_tailOffers h'
  rw [he] at hfront
  omega

theorem nodup_tailNames :
    ((tailOffers (usedIn (model.occurrences ids))).map (·.item.name)).Nodup := by
  have hspecs : ∀ spec ∈ usedIn (model.occurrences ids), spec ∈ Catalog.annotations :=
    fun spec h => spec_mem_of_mem_usedIn h
  have hkeys : ((tailOffers (usedIn (model.occurrences ids))).map (·.key)).Nodup := by
    unfold tailOffers
    rw [List.map_append]
    exact nodup_tailKeys (nodup_usedIn _) hspecs
  have hslashless : ∀ k ∈ (tailOffers (usedIn (model.occurrences ids))).map (·.key),
      k.Slashless := by
    intro k hk
    unfold tailOffers at hk
    rw [List.map_append, List.mem_append, List.map_flatMap, List.mem_flatMap] at hk
    rcases hk with ⟨spec, hs, hk⟩ | hk
    · obtain ⟨p, hp, _, rfl⟩ := mem_keys_offersOf.mp hk
      exact ⟨fun s hs => absurd hs List.not_mem_nil, hspecs spec hs, hp⟩
    · rw [List.mem_singleton.mp hk]
      trivial
  have hnames : (tailOffers (usedIn (model.occurrences ids))).map (·.item.name) =
      ((tailOffers (usedIn (model.occurrences ids))).map (·.key)).map PropertyKey.name := by
    rw [List.map_map]
    apply List.map_congr_left
    intro f hf
    have hoffer : f ∈ offersIn model (model.occurrences ids) := by
      rw [offersIn_eq_append_tail]
      exact List.mem_append_right _ hf
    exact name_of_mem_offersIn hoffer
  rw [hnames]
  exact hkeys.map_on fun k hk k' hk' he =>
    PropertyKey.eq_of_name (hslashless k hk) (hslashless k' hk') he

/-- The properties are those of the types and methods, of which none has one of the last names, and
then the last ones, all of them and in order. -/
theorem properties_eq_append_tail :
    (model.naiveProperties ids).properties =
      firstOfEach (·.name)
          (((model.occurrences ids).flatMap (·.offers model)).map (·.item)) ++
        (tailOffers (usedIn (model.occurrences ids))).map (·.item) := by
  unfold Model.naiveProperties collect Collector.toProjectInfo
  simp only
  have hnodup : (((tailOffers (usedIn (model.occurrences ids))).map (·.item)).map (·.name)).Nodup := by
    rw [List.map_map]
    exact nodup_tailNames
  rw [offersIn_eq_append_tail, List.map_append, FirstOfEach.firstOfEach_append_of_fresh,
    FirstOfEach.firstOfEach_of_nodup _ hnodup]
  intro i hi hname
  obtain ⟨f', hf', rfl⟩ := List.mem_map.mp hi
  rw [List.map_map] at hname
  obtain ⟨f, hf, he⟩ := List.mem_map.mp hname
  obtain ⟨o, _, hf⟩ := List.mem_flatMap.mp hf
  exact name_ne_of_mem_tailOffers hf hf' he

end tail

/-! ## Hints -/

/-- Whether a parameter of the annotation has the values of an enumeration. -/
def Catalog.Spec.hasEnum (spec : Catalog.Spec) : Bool := spec.parameters.any (·.hint.isSome)

namespace Catalog

theorem hint_eq_chronoUnit : ∀ spec ∈ annotations, ∀ p ∈ spec.parameters,
    p.hint = none ∨ (p.hint = some chronoUnit ∧ p.default?.isSome) := by decide +kernel

end Catalog

section hints
variable {model : Model} {ids : List Nat}

theorem hint_of_mem_offersIn {f : Offer} (h : f ∈ offersIn model (model.occurrences ids))
    {hint : ItemHint} (hf : f.hint? = some hint) :
    hint = Catalog.chronoUnit.toItemHint ∧
      ∃ spec ∈ usedIn (model.occurrences ids), spec.hasEnum = true := by
  have hparameter : ∀ spec ∈ usedIn (model.occurrences ids), ∀ p ∈ spec.parameters,
      f.hint? = p.hint.map (·.toItemHint) → hint = Catalog.chronoUnit.toItemHint ∧
        ∃ spec ∈ usedIn (model.occurrences ids), spec.hasEnum = true := by
    intro spec hs p hp he
    rw [hf] at he
    rcases Catalog.hint_eq_chronoUnit spec (spec_mem_of_mem_usedIn hs) p hp with hn | ⟨hc, _⟩
    · rw [hn] at he
      cases he
    · rw [hc] at he
      refine ⟨Option.some.inj he, spec, hs, List.any_eq_true.mpr ⟨p, hp, ?_⟩⟩
      rw [hc, Option.isSome_some]
  rw [offersIn_eq_append_tail] at h
  rcases List.mem_append.mp h with h | h
  · obtain ⟨o, ho, h⟩ := List.mem_flatMap.mp h
    obtain ⟨p, hp, he, _⟩ := parameter_of_mem_offers h
    exact hparameter o.spec (mem_usedIn.mpr ⟨o, ho, rfl⟩) p hp he
  · rcases List.mem_append.mp h with h | h
    · obtain ⟨spec, hs, h⟩ := List.mem_flatMap.mp h
      obtain ⟨p, hp, default, _, rfl⟩ := mem_offersOf.mp h
      exact hparameter spec hs p hp rfl
    · rw [List.mem_singleton.mp h] at hf
      cases hf

theorem exists_hint_of_hasEnum {spec : Catalog.Spec}
    (hs : spec ∈ usedIn (model.occurrences ids)) (henum : spec.hasEnum = true) :
    (offersIn model (model.occurrences ids)).filterMap (·.hint?) ≠ [] := by
  obtain ⟨p, hp, hhint⟩ := List.any_eq_true.mp henum
  rcases Catalog.hint_eq_chronoUnit spec (spec_mem_of_mem_usedIn hs) p hp with hn | ⟨hc, hd⟩
  · rw [hn] at hhint
    cases hhint
  · obtain ⟨default, hd⟩ := Option.isSome_iff_exists.mp hd
    have hoffer : ⟨.parameter .everywhere spec p, globalProperty spec p default,
        p.hint.map (·.toItemHint)⟩ ∈ offersIn model (model.occurrences ids) := by
      rw [offersIn_eq_append_tail]
      refine List.mem_append_right _ (List.mem_append_left _ (List.mem_flatMap.mpr ⟨spec, hs, ?_⟩))
      exact mem_offersOf.mpr ⟨p, hp, default, hd, rfl⟩
    have hhint : p.hint.map (·.toItemHint) = some Catalog.chronoUnit.toItemHint := by
      rw [hc, Option.map_some]
    exact List.ne_nil_of_mem (List.mem_filterMap.mpr ⟨_, hoffer, hhint⟩)

theorem hints_eq :
    (model.naiveProperties ids).hints =
      if (usedIn (model.occurrences ids)).any (·.hasEnum) then [Catalog.chronoUnit.toItemHint]
      else [] := by
  unfold Model.naiveProperties collect Collector.toProjectInfo
  simp only
  have hall : ∀ hint ∈ (offersIn model (model.occurrences ids)).filterMap (·.hint?),
      hint = Catalog.chronoUnit.toItemHint ∧
        ∃ spec ∈ usedIn (model.occurrences ids), spec.hasEnum = true := by
    intro hint hmem
    obtain ⟨f, hf, hhint⟩ := List.mem_filterMap.mp hmem
    exact hint_of_mem_offersIn hf hhint
  split
  · rename_i hany
    obtain ⟨spec, hs, henum⟩ := List.any_eq_true.mp hany
    exact FirstOfEach.firstOfEach_of_forall_eq _ (fun hint h => (hall hint h).1)
      (exists_hint_of_hasEnum hs henum)
  · rename_i hany
    have hnil : (offersIn model (model.occurrences ids)).filterMap (·.hint?) = [] := by
      apply List.eq_nil_iff_forall_not_mem.mpr
      intro hint hmem
      exact hany (List.any_eq_true.mpr (hall hint hmem).2)
    rw [hnil, FirstOfEach.firstOfEach_nil]

end hints

/-! ## The whole list -/

/-- The properties of a project end in those for all uses of its annotations and in the switch. Each
annotation that occurs in a type that can be read, in the order of first use, has all its parameters
with a default there, as the catalog gives them; before them stand properties of types and methods,
and none of these has, or could have, one of the names. The one hint is for the units of time. -/
theorem projectProperties_tail (model : Model) (scope : Scope) (info : ProjectInfo)
    (hinfo : projectProperties model scope = .ok info) :
    ∃ ids, model.resolveProject scope = .ok ids ∧
      (info.properties.map (·.name)).Nodup ∧
      (∃ front switch,
        info.properties =
          front ++ (usedIn (model.occurrences ids)).flatMap Catalog.Spec.items ++ [switch] ∧
        switch.name = "MP_Fault_Tolerance_NonFallback_Enabled" ∧
        switch.defaultValue = some "false" ∧ switch.sourceType = none ∧
        (∀ i ∈ front, ∃ o ∈ model.occurrences ids, ∃ f ∈ o.offers model, f.item = i) ∧
        ∀ o : Occurrence, ∀ f ∈ o.offers model,
          f.item.name ∉ ((usedIn (model.occurrences ids)).flatMap Catalog.Spec.items ++
            [switch]).map (·.name)) ∧
      (∀ spec, spec ∈ usedIn (model.occurrences ids) ↔ model.Uses ids spec .everywhere) ∧
      info.hints =
        if (usedIn (model.occurrences ids)).any (·.hasEnum) then [Catalog.chronoUnit.toItemHint]
        else [] := by
  cases hids : model.resolveProject scope with
  | error e =>
    rw [projectProperties_eq_firstOfEach, hids] at hinfo
    cases hinfo
  | ok ids =>
    rw [projectProperties_of_resolve hids] at hinfo
    obtain rfl := Except.ok.inj hinfo
    refine ⟨ids, rfl, FirstOfEach.nodup_map_firstOfEach _ _, ?_, ?_, hints_eq⟩
    · refine ⟨firstOfEach (·.name) (((model.occurrences ids).flatMap (·.offers model)).map (·.item)),
        nonFallbackProperty, ?_, rfl, rfl, rfl, ?_, ?_⟩
      · rw [properties_eq_append_tail, items_tailOffers, List.append_assoc]
      · intro i hi
        obtain ⟨f, hf, rfl⟩ := List.mem_map.mp ((FirstOfEach.firstOfEach_sublist _ _).subset hi)
        obtain ⟨o, ho, hf⟩ := List.mem_flatMap.mp hf
        exact ⟨o, ho, f, hf, rfl⟩
      · intro o f hf hname
        rw [← items_tailOffers, List.map_map] at hname
        obtain ⟨f', hf', he⟩ := List.mem_map.mp hname
        exact name_ne_of_mem_tailOffers hf hf' he.symm
    · intro spec
      rw [mem_usedIn]
      constructor
      · rintro ⟨o, ho, rfl⟩
        exact Model.uses_of_mem_reaches ho o.everywhere_mem_reaches
      · intro hu
        obtain ⟨o, ho, hs, _⟩ := hu.exists_occurrence
        exact ⟨o, ho, hs⟩

/-- A type without a name that has a method called like a separator. -/
def namelessType : JavaType where
  name := ""
  kind := .classType
  origin := .binary
  annotations := [{ name := "Timeout" }]
  methods := [{ name := "/", returnType := "void", parameterTypes := []
                annotations := [{ name := "Bulkhead" }, { name := "Timeout" }] }]

def nameless : Model := ((MemoryModel.named "nameless").addType namelessType).2.toModel

theorem usedIn_nameless :
    usedIn (nameless.occurrences [0]) = [Catalog.timeout, Catalog.bulkhead] := by decide +kernel

theorem projectProperties_tail_nameless :
    ∃ info, projectProperties nameless .sourcesAndDependencies = .ok info ∧
      (info.properties.map (·.name)).Nodup ∧
      (∃ front switch, info.properties =
        front ++ (Catalog.timeout.items ++ Catalog.bulkhead.items) ++ [switch]) ∧
      info.hints = [Catalog.chronoUnit.toItemHint] := by
  have hinfo : projectProperties nameless .sourcesAndDependencies =
      .ok (nameless.naiveProperties [0]) := projectProperties_of_resolve rfl
  obtain ⟨ids, hids, hnodup, ⟨front, switch, hproperties, _⟩, _, hhints⟩ :=
    projectProperties_tail nameless .sourcesAndDependencies _ hinfo
  obtain rfl : ids = [0] := (Except.ok.inj hids).symm
  rw [usedIn_nameless] at hproperties hhints
  refine ⟨_, hinfo, hnodup, ⟨front, switch, ?_⟩, hhints⟩
  rw [hproperties, List.flatMap_cons, List.flatMap_singleton]

end FaultTolerance
