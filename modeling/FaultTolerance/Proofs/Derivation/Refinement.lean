import FaultTolerance.Proofs.Derivation.Offers

/-! The derivation of properties equals its naive reading: offer everything that the occurrences
give rise to, and keep the first of each name.

The derivation leaves out the tier of a type that it has been through, and asks for a hint before it
adds one. `Follows` ties its state to the occurrences visited so far; the tiers it leaves out would
only offer names that are there (`collect_append_of_known`). -/
namespace FaultTolerance
open Java
set_option autoImplicit false

/-! ## Offers of one annotation -/

theorem parameterValue?_eq_of_default (a : Option Annotation) {p : Catalog.Parameter}
    {default : String} (h : p.default? = some default) :
    parameterValue? a p = some ((written? a p).getD default) := by
  unfold parameterValue? written?
  cases a.bind (·.member? p.name) with
  | none => exact h
  | some m => rfl

theorem exists_typeOffer_of_name_eq {t t' : JavaType} {spec : Catalog.Spec} (ht : t'.name = t.name)
    (a a' : Option Annotation) {o : Offer} (ho : o ∈ typeOffers t spec a) :
    ∃ o' ∈ typeOffers t' spec a', o'.item.name = o.item.name ∧ o'.hint? = o.hint? := by
  obtain ⟨p, hp, default, hd, rfl⟩ := mem_offersOf.mp ho
  refine ⟨_, mem_offersOf.mpr ⟨p, hp, default, hd, rfl⟩, ?_, rfl⟩
  simp only [Tier.property, Tier.ofType, ht]

/-! ## Collecting offers one by one -/

theorem collect_append_of_known (offers more : List Offer)
    (h : ∀ o ∈ more, ∃ o' ∈ offers, o'.item.name = o.item.name ∧ o'.hint? = o.hint?) :
    collect (offers ++ more) = collect offers := by
  have hitems : ∀ i ∈ more.map (·.item), i.name ∈ (offers.map (·.item)).map (·.name) := by
    intro i hi
    obtain ⟨o, ho, rfl⟩ := List.mem_map.mp hi
    obtain ⟨o', ho', hn, _⟩ := h o ho
    exact List.mem_map.mpr ⟨o'.item, List.mem_map_of_mem ho', hn⟩
  have hhints : ∀ x ∈ more.filterMap (·.hint?), x.name ∈ (offers.filterMap (·.hint?)).map (·.name) := by
    intro x hx
    obtain ⟨o, ho, hox⟩ := List.mem_filterMap.mp hx
    obtain ⟨o', ho', _, he⟩ := h o ho
    exact List.mem_map_of_mem (List.mem_filterMap.mpr ⟨o', ho', he.trans hox⟩)
  unfold collect
  rw [List.map_append, List.filterMap_append,
    FirstOfEach.firstOfEach_append_of_known _ _ _ hitems,
    FirstOfEach.firstOfEach_append_of_known _ _ _ hhints]

theorem addNewHint_eq_addHint (c : Collector) (hint : Option Catalog.EnumHint) :
    Derivation.addNewHint c hint = Derivation.addHint c hint := by
  cases hint with
  | none => rfl
  | some h =>
    change (if c.hasHint h.name then c else (c.addHint h.toItemHint).2) = (c.addHint h.toItemHint).2
    split
    · rename_i hc
      have hc' : c.hasHint h.toItemHint.name := hc
      rw [Collector.addHint, if_pos hc']
    · rfl

theorem addHint_collect (offers : List Offer) (hint : Option Catalog.EnumHint) :
    Derivation.addHint (collect offers) hint =
      { collect offers with
        hints := firstOfEach (·.name)
          (offers.filterMap (·.hint?) ++ (hint.map (·.toItemHint)).toList) } := by
  cases hint with
  | none =>
    rw [Option.map_none, Option.toList_none, List.append_nil]
    rfl
  | some h =>
    rw [Option.map_some, Option.toList_some, FirstOfEach.firstOfEach_concat]
    unfold Derivation.addHint Collector.addHint Collector.hasHint
    simp only [collect, FirstOfEach.any_firstOfEach]
    split <;> rfl

theorem take_collect (offers : List Offer) (o : Offer) (hint : Option Catalog.EnumHint)
    (ho : o.hint? = hint.map (·.toItemHint)) :
    ((Derivation.addHint (collect offers) hint).addProperty o.item).2 = collect (offers ++ [o]) := by
  have hprops : firstOfEach (·.name) ((offers ++ [o]).map (·.item)) =
      if ((offers.map (·.item)).map (·.name)).contains o.item.name
      then firstOfEach (·.name) (offers.map (·.item))
      else firstOfEach (·.name) (offers.map (·.item)) ++ [o.item] := by
    rw [List.map_append, List.map_singleton, FirstOfEach.firstOfEach_concat]
  have hhints : (offers ++ [o]).filterMap (·.hint?) =
      offers.filterMap (·.hint?) ++ (hint.map (·.toItemHint)).toList := by
    rw [List.filterMap_append, ← ho]
    cases hh : o.hint? with
    | none => rw [List.filterMap_cons_none hh, List.filterMap_nil, Option.toList_none]
    | some h => rw [List.filterMap_cons_some hh, List.filterMap_nil, Option.toList_some]
  rw [addHint_collect]
  unfold Collector.addProperty
  simp only [collect, FirstOfEach.any_firstOfEach, hprops, hhints]
  split <;> rfl

/-! ## Collecting along a list -/

theorem foldl_collect {α : Type} {f : Collector → α → Collector} {g : α → List Offer}
    (hf : ∀ offers a, f (collect offers) a = collect (offers ++ g a)) (offers : List Offer)
    (l : List α) : l.foldl f (collect offers) = collect (offers ++ l.flatMap g) := by
  induction l generalizing offers with
  | nil => rw [List.foldl_nil, List.flatMap_nil, List.append_nil]
  | cons a l ih => rw [List.foldl_cons, hf, ih, List.flatMap_cons, List.append_assoc]

theorem addTier_collect (offers : List Offer) (reach : Reach) (spec : Catalog.Spec) (tier : Tier)
    (a : Option Annotation) :
    Derivation.addTier (collect offers) spec tier a =
      collect (offers ++ offersOf reach spec fun p default =>
        tier.property p ((written? a p).getD default)) := by
  unfold Derivation.addTier offersOf
  rw [List.foldl_filter, List.filterMap_eq_flatMap_toList]
  refine foldl_collect (fun offers p => ?_) offers spec.parameters
  cases hd : p.default? with
  | none => simp [Catalog.Parameter.isRequired, hd]
  | some default =>
    rw [if_pos (by simp [Catalog.Parameter.isRequired, hd]), parameterValue?_eq_of_default a hd]
    simp only
    rw [addNewHint_eq_addHint]
    exact take_collect offers ⟨.parameter reach spec p, tier.property p ((written? a p).getD default),
      p.hint.map (·.toItemHint)⟩ p.hint rfl

theorem addGlobal_collect (offers : List Offer) (spec : Catalog.Spec) :
    Derivation.addGlobal (collect offers) spec = collect (offers ++ annotationOffers spec) := by
  unfold Derivation.addGlobal annotationOffers offersOf
  rw [List.filterMap_eq_flatMap_toList]
  refine foldl_collect (fun offers p => ?_) offers spec.parameters
  cases hd : p.default? with
  | none => simp
  | some default =>
    exact take_collect offers ⟨.parameter .everywhere spec p, globalProperty spec p default,
      p.hint.map (·.toItemHint)⟩ p.hint rfl

/-! ## The state of a derivation -/

/-- The state of a derivation that was offered `offers` and met the annotations `used`. A tier that
it holds for done is among the offers. -/
structure Follows (offers : List Offer) (used : List Catalog.Spec) (d : Derivation) : Prop where
  collected : d.collected = collect offers
  used : d.used = used
  typeTiers : ∀ x ∈ d.typeTiers, ∃ (t : JavaType) (spec : Catalog.Spec) (a : Option Annotation),
    spec ∈ Catalog.annotations ∧ x = (t.name, spec.qualifiedName) ∧ typeOffers t spec a ⊆ offers

theorem Follows.init : Follows [] [] {} where
  collected := rfl
  used := rfl
  typeTiers _ hx := absurd hx List.not_mem_nil

theorem usedIn_concat (visited : List Occurrence) (o : Occurrence) :
    usedIn (visited ++ [o]) =
      if (usedIn visited).contains o.spec then usedIn visited else usedIn visited ++ [o.spec] := by
  have h := FirstOfEach.firstOfEach_concat id (visited.map (·.spec)) o.spec
  have hm : (usedIn visited).contains o.spec = (visited.map (·.spec)).contains o.spec := by
    rw [Bool.eq_iff_iff, List.contains_iff_mem, List.contains_iff_mem]
    exact List.mem_eraseDups
  rw [List.map_id] at h
  rw [hm]
  unfold usedIn
  rw [List.map_append, List.map_singleton]
  exact h

theorem Follows.markUsed {offers : List Offer} {visited : List Occurrence} {d : Derivation}
    (h : Follows offers (usedIn visited) d) (o : Occurrence) :
    Follows offers (usedIn (visited ++ [o])) (d.markUsed o.spec) := by
  unfold Derivation.markUsed
  rw [usedIn_concat, h.used]
  split
  · exact h
  · exact ⟨h.collected, rfl, h.typeTiers⟩

/-- Leaving out the tier of a type that is held for done changes nothing, since all of its names
and hints were offered before. -/
theorem Follows.addTypeTier {offers : List Offer} {used : List Catalog.Spec} {d : Derivation}
    (h : Follows offers used d) (t : JavaType) {spec : Catalog.Spec}
    (hs : spec ∈ Catalog.annotations) (a : Option Annotation) :
    Follows (offers ++ typeOffers t spec a) used (d.addTypeTier t spec a) := by
  unfold Derivation.addTypeTier
  split
  · rename_i hc
    obtain ⟨t', spec', a', hs', hx, hsub⟩ := h.typeTiers _ (List.contains_iff_mem.mp hc)
    obtain ⟨ht, hq⟩ := Prod.mk.inj hx
    obtain rfl : spec = spec' := Catalog.eq_of_qualifiedName hs hs' hq
    have hknown : collect (offers ++ typeOffers t spec a) = collect offers := by
      apply collect_append_of_known
      intro o ho
      obtain ⟨o', ho', hn⟩ := exists_typeOffer_of_name_eq ht.symm a a' ho
      exact ⟨o', hsub ho', hn⟩
    refine ⟨h.collected.trans hknown.symm, h.used, fun x hx => ?_⟩
    obtain ⟨t₁, spec₁, a₁, hs₁, he, hsub₁⟩ := h.typeTiers x hx
    exact ⟨t₁, spec₁, a₁, hs₁, he, List.subset_append_of_subset_left _ hsub₁⟩
  · refine ⟨?_, h.used, fun x hx => ?_⟩
    · change Derivation.addTier d.collected spec (.ofType t spec) a = _
      rw [h.collected]
      exact addTier_collect offers _ spec _ a
    · rcases List.mem_cons.mp hx with rfl | hx
      · exact ⟨t, spec, a, hs, rfl, List.subset_append_right ..⟩
      · obtain ⟨t₁, spec₁, a₁, hs₁, he, hsub₁⟩ := h.typeTiers x hx
        exact ⟨t₁, spec₁, a₁, hs₁, he, List.subset_append_of_subset_left _ hsub₁⟩

theorem Follows.addMethodTier {offers : List Offer} {used : List Catalog.Spec} {d : Derivation}
    (h : Follows offers used d) (t : JavaType) (m : Method) (spec : Catalog.Spec)
    (a : Option Annotation) :
    Follows (offers ++ methodOffers t m spec a) used
      { d with collected := Derivation.addTier d.collected spec (.ofMethod t m spec) a } := by
  refine ⟨?_, h.used, fun x hx => ?_⟩
  · change Derivation.addTier d.collected spec (.ofMethod t m spec) a = _
    rw [h.collected]
    exact addTier_collect offers _ spec _ a
  · obtain ⟨t₁, spec₁, a₁, hs₁, he, hsub₁⟩ := h.typeTiers x hx
    exact ⟨t₁, spec₁, a₁, hs₁, he, List.subset_append_of_subset_left _ hsub₁⟩

/-! ## Visits -/

theorem Follows.visit {model : Model} {visited : List Occurrence} {d : Derivation}
    (h : Follows (visited.flatMap (·.offers model)) (usedIn visited) d) {o : Occurrence}
    (ho : o.spec ∈ Catalog.annotations) :
    Follows ((visited ++ [o]).flatMap (·.offers model)) (usedIn (visited ++ [o]))
      (d.visit model o) := by
  have hm := h.markUsed o
  rw [List.flatMap_append, List.flatMap_singleton]
  unfold Derivation.visit Occurrence.offers
  cases o.target with
  | type => exact hm.addTypeTier o.declaringType ho _
  | method m =>
    have ht := hm.addTypeTier o.declaringType ho (typeAnnotation? model o.declaringType o.spec)
    have := ht.addMethodTier o.declaringType m o.spec (some o.annotation)
    rwa [List.append_assoc] at this
  | field f =>
    rw [List.append_nil]
    exact hm

theorem Follows.visits {model : Model} {visited : List Occurrence} {d : Derivation}
    (h : Follows (visited.flatMap (·.offers model)) (usedIn visited) d) {found : List Occurrence}
    (hf : ∀ o ∈ found, o.spec ∈ Catalog.annotations) :
    Follows ((visited ++ found).flatMap (·.offers model)) (usedIn (visited ++ found))
      (found.foldl (Derivation.visit model) d) := by
  induction found generalizing visited d with
  | nil =>
    rw [List.append_nil, List.foldl_nil]
    exact h
  | cons o found ih =>
    rw [List.foldl_cons, List.append_cons]
    exact ih (h.visit (hf o List.mem_cons_self)) fun o' ho' => hf o' (List.mem_cons_of_mem _ ho')

theorem Follows.visitTypes {model : Model} (done ids : List Nat) {d : Derivation}
    (h : Follows ((model.occurrences done).flatMap (·.offers model))
      (usedIn (model.occurrences done)) d) :
    Follows ((model.occurrences (done ++ ids)).flatMap (·.offers model))
      (usedIn (model.occurrences (done ++ ids))) (ids.foldl (Derivation.visitType model) d) := by
  induction ids generalizing done d with
  | nil =>
    rw [List.append_nil, List.foldl_nil]
    exact h
  | cons id ids ih =>
    rw [List.foldl_cons, List.append_cons]
    apply ih
    have hfound := Occurrence.toOption_inType model id
    unfold Derivation.visitType
    unfold Model.occurrences at h ⊢
    rw [List.filterMap_append, List.flatMap_append]
    cases hr : model.readable? id with
    | none =>
      rw [List.filterMap_cons_none hr, List.filterMap_nil, List.flatMap_nil, List.append_nil]
      cases hi : Occurrence.inType model id with
      | error e => exact h
      | ok found => simp [hi, hr, Except.toOption] at hfound
    | some read =>
      obtain ⟨t, methods⟩ := read
      rw [List.filterMap_cons_some hr, List.filterMap_nil, List.flatMap_singleton]
      cases hi : Occurrence.inType model id with
      | error e => simp [hi, hr, Except.toOption] at hfound
      | ok found =>
        have he : found = Occurrence.ofType model t methods := by
          simpa [hi, hr, Except.toOption] using hfound
        subst he
        exact h.visits fun o ho => Occurrence.spec_mem_of_mem_ofType ho

theorem Follows.finish {model : Model} {found : List Occurrence} {d : Derivation}
    (h : Follows (found.flatMap (·.offers model)) (usedIn found) d) :
    d.finish = (collect (offersIn model found)).toProjectInfo := by
  unfold Derivation.finish offersIn
  rw [h.collected, h.used, foldl_collect addGlobal_collect]
  exact congrArg Collector.toProjectInfo
    (take_collect _ ⟨.nonFallback, nonFallbackProperty, none⟩ none rfl)

/-! ## The naive derivation -/

theorem finish_visitTypes (model : Model) (ids : List Nat) :
    (ids.foldl (Derivation.visitType model) {}).finish = model.naiveProperties ids :=
  (Follows.init.visitTypes [] ids).finish

theorem projectProperties_of_resolve {model : Model} {scope : Scope} {ids : List Nat}
    (h : model.resolveProject scope = .ok ids) :
    projectProperties model scope = .ok (model.naiveProperties ids) := by
  unfold projectProperties
  rw [h]
  exact congrArg Except.ok (finish_visitTypes model ids)

/-- The properties of a project are the first of each name among all that its occurrences offer in
order, followed by what the annotations in use offer and by the switch; its hints are the first of
each name among those of the same offers. It fails where its types cannot be listed and only there. -/
theorem projectProperties_eq_firstOfEach (model : Model) (scope : Scope) :
    projectProperties model scope = (model.resolveProject scope).map fun ids =>
      { properties := firstOfEach (·.name)
          ((offersIn model (model.occurrences ids)).map (·.item))
        hints := firstOfEach (·.name)
          ((offersIn model (model.occurrences ids)).filterMap (·.hint?)) } := by
  cases h : model.resolveProject scope with
  | error e =>
    unfold projectProperties
    rw [h]
    rfl
  | ok ids =>
    rw [projectProperties_of_resolve h]
    rfl

end FaultTolerance
