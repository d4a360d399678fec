import FaultTolerance.Proofs.Derivation.Names

/-! Where the value of a property comes from. Several offers may have the key of a tier; the first
one decides. For the tier of a type that is valued from the first annotation on the type itself,
whether an occurrence on the type or one on a method brings it; for the tier of a method it is
valued from the first annotation on the first method of the name that carries one. -/
namespace FaultTolerance
open Java
set_option autoImplicit false

/-! ## First matches -/

theorem findSome?_eq_some_of_forall {α β : Type} {l : List α} {f : α → Option β} {x : β}
    (h : ∀ a ∈ l, f a = none ∨ f a = some x) (hx : ∃ a ∈ l, f a = some x) :
    l.findSome? f = some x := by
  obtain ⟨a, ha, hax⟩ := hx
  cases hf : l.findSome? f with
  | none =>
    rw [List.findSome?_eq_none_iff.mp hf a ha] at hax
    cases hax
  | some y =>
    obtain ⟨b, hb, hby⟩ := List.exists_of_findSome?_eq_some hf
    rcases h b hb with hn | hs
    · rw [hby] at hn
      cases hn
    · rw [← hby, hs]

theorem find?_eq_some_of_forall {α : Type} {l : List α} {q : α → Bool} {x : α} (hx : x ∈ l)
    (hq : q x) (h : ∀ y ∈ l, q y → y = x) : l.find? q = some x := by
  cases hf : l.find? q with
  | none => exact absurd hq (List.find?_eq_none.mp hf x hx)
  | some y => rw [h y (List.mem_of_find?_eq_some hf) (List.find?_some hf)]

def firstDenoting (annotations : List Annotation) (spec : Catalog.Spec) : Option Annotation :=
  annotations.find? fun a => Catalog.resolve? a == some spec

theorem findSome?_among {β : Type} (t : JavaType) (target : Target) (annotations : List Annotation)
    (spec : Catalog.Spec) (F : Annotation → β) (g : Occurrence → Option β)
    (hg : ∀ a s, g ⟨s, a, t, target⟩ = if s = spec then some (F a) else none) :
    (Occurrence.among t target annotations).findSome? g = (firstDenoting annotations spec).map F := by
  unfold Occurrence.among firstDenoting
  induction annotations with
  | nil => rfl
  | cons a annotations ih =>
    cases hs : Catalog.resolve? a with
    | none =>
      rw [List.filterMap_cons_none (by rw [hs, Option.map_none]), ih,
        List.find?_cons_of_neg (by simp [hs])]
    | some s =>
      rw [List.filterMap_cons_some (by rw [hs, Option.map_some]), List.findSome?_cons, hg]
      by_cases he : s = spec
      · rw [if_pos he, List.find?_cons_of_pos (by simp [hs, he]), Option.map_some]
      · rw [if_neg he, List.find?_cons_of_neg (by simp [hs, he]), ih]

/-! ## What is offered for a key -/

/-- The item of the first offer of a key. -/
def itemOf (k : PropertyKey) (offers : List Offer) : Option ItemMetadata :=
  (offers.find? (·.key == k)).map (·.item)

theorem itemOf_append (k : PropertyKey) (l l' : List Offer) :
    itemOf k (l ++ l') = (itemOf k l).or (itemOf k l') := by
  unfold itemOf
  rw [List.find?_append, Option.map_or]

theorem itemOf_flatMap {α : Type} (k : PropertyKey) (l : List α) (f : α → List Offer) :
    itemOf k (l.flatMap f) = l.findSome? fun a => itemOf k (f a) := by
  unfold itemOf
  rw [List.find?_flatMap, List.map_findSome?]
  rfl

theorem itemOf_eq_none {k : PropertyKey} {l : List Offer} (h : k ∉ l.map (·.key)) :
    itemOf k l = none := by
  unfold itemOf
  rw [Option.map_eq_none_iff, List.find?_eq_none]
  intro f hf hk
  exact h (List.mem_map.mpr ⟨f, hf, beq_iff_eq.mp hk⟩)

section
variable {spec : Catalog.Spec} {p : Catalog.Parameter} {default : String}

theorem itemOf_offersOf {reach : Reach} (hp : p ∈ spec.parameters) (hd : p.default? = some default)
    (item : Catalog.Parameter → String → ItemMetadata) :
    itemOf (.parameter reach spec p) (offersOf reach spec item) = some (item p default) := by
  unfold itemOf
  rw [Option.map_eq_some_iff]
  refine ⟨_, find?_eq_some_of_forall (mem_offersOf.mpr ⟨p, hp, default, hd, rfl⟩) ?_ ?_, rfl⟩
  · exact beq_self_eq_true (PropertyKey.parameter reach spec p)
  intro f hf hk
  obtain ⟨p', _, default', hd', rfl⟩ := mem_offersOf.mp hf
  obtain ⟨_, _, rfl⟩ := PropertyKey.parameter.inj (beq_iff_eq.mp hk)
  rw [hd] at hd'
  rw [Option.some.inj hd']

/-! ## What one occurrence offers -/

/-- The property of a parameter in a type, valued from `a`. -/
def typeItem (t : JavaType) (spec : Catalog.Spec) (p : Catalog.Parameter) (default : String)
    (a : Option Annotation) : ItemMetadata where
  name := t.name ++ "/" ++ spec.simpleName ++ "/" ++ p.name
  type := p.type
  description := some p.documentation
  sourceType := some t.name
  sourceMethod := none
  defaultValue := some ((written? a p).getD default)
  binary := t.isBinary

/-- The property of a parameter on a method, valued from `a`. -/
def methodItem (t : JavaType) (m : Method) (spec : Catalog.Spec) (p : Catalog.Parameter)
    (default : String) (a : Option Annotation) : ItemMetadata where
  name := t.name ++ "/" ++ m.name ++ "/" ++ spec.simpleName ++ "/" ++ p.name
  type := p.type
  description := some p.documentation
  sourceType := some t.name
  sourceMethod := some m.signature
  defaultValue := some ((written? a p).getD default)
  binary := t.isBinary

theorem itemOf_typeOffers (hp : p ∈ spec.parameters) (hd : p.default? = some default)
    (t : JavaType) (a : Option Annotation) :
    itemOf (.parameter (.ofType t.name) spec p) (typeOffers t spec a) =
      some (typeItem t spec p default a) := itemOf_offersOf hp hd _

theorem itemOf_methodOffers (hp : p ∈ spec.parameters) (hd : p.default? = some default)
    (t : JavaType) (m : Method) (a : Option Annotation) :
    itemOf (.parameter (.ofMethod t.name m.name) spec p) (methodOffers t m spec a) =
      some (methodItem t m spec p default a) := itemOf_offersOf hp hd _

variable {model : Model}

theorem itemOf_offers_eq_none {o : Occurrence} {reach : Reach}
    (h : ¬ (o.spec = spec ∧ reach ∈ o.reaches)) :
    itemOf (.parameter reach spec p) (o.offers model) = none := by
  apply itemOf_eq_none
  intro hk
  have hk' : PropertyKey.parameter reach spec p ∈
      (o.offers model ++ annotationOffers o.spec).map (·.key) := by
    rw [List.map_append]
    exact List.mem_append_left _ hk
  obtain ⟨reach', hreach, _, _, _, he⟩ := Occurrence.mem_keys_offers.mp hk'
  obtain ⟨rfl, rfl, _⟩ := PropertyKey.parameter.inj he
  exact h ⟨rfl, hreach⟩

theorem itemOf_flatMap_eq_none {found : List Occurrence} {reach : Reach}
    (h : ∀ o ∈ found, ¬ (o.spec = spec ∧ reach ∈ o.reaches)) :
    itemOf (.parameter reach spec p) (found.flatMap (·.offers model)) = none := by
  rw [itemOf_flatMap, List.findSome?_eq_none_iff]
  exact fun o ho => itemOf_offers_eq_none (h o ho)

theorem itemOf_offers_method (hp : p ∈ spec.parameters) (hd : p.default? = some default)
    (a : Annotation) (t : JavaType) (m : Method) :
    itemOf (.parameter (.ofType t.name) spec p)
        (Occurrence.offers model ⟨spec, a, t, .method m⟩) =
      some (typeItem t spec p default (firstDenoting (model.annotationsOn (.type t)) spec)) := by
  unfold Occurrence.offers
  simp only
  rw [itemOf_append, itemOf_typeOffers hp hd, Option.some_or]
  rfl

theorem itemOf_offers_ofMethod (hp : p ∈ spec.parameters) (hd : p.default? = some default)
    (a : Annotation) (t : JavaType) (m : Method) :
    itemOf (.parameter (.ofMethod t.name m.name) spec p)
        (Occurrence.offers model ⟨spec, a, t, .method m⟩) =
      some (methodItem t m spec p default (some a)) := by
  have hnone : itemOf (.parameter (.ofMethod t.name m.name) spec p)
      (typeOffers t spec (typeAnnotation? model t spec)) = none := by
    apply itemOf_eq_none
    rw [typeOffers, mem_keys_offersOf]
    rintro ⟨_, _, _, he⟩
    cases he
  unfold Occurrence.offers
  simp only
  rw [itemOf_append, hnone, Option.none_or, itemOf_methodOffers hp hd]

/-! ## What one type offers -/

theorem isSome_firstDenoting {e : Element} (h : model.Carries e spec) :
    ∃ a, firstDenoting (model.annotationsOn e) spec = some a := by
  obtain ⟨a, ha, hs⟩ := h
  apply Option.isSome_iff_exists.mp
  exact List.find?_isSome.mpr ⟨a, ha, beq_iff_eq.mpr hs⟩

/-- The occurrences on a type come before those on its members, and the first of them decides. -/
theorem itemOf_ofType_of_some (hp : p ∈ spec.parameters) (hd : p.default? = some default)
    {t : JavaType} (methods : List Method) {a : Annotation}
    (ha : firstDenoting (model.annotationsOn (.type t)) spec = some a) :
    itemOf (.parameter (.ofType t.name) spec p)
        ((Occurrence.ofType model t methods).flatMap (·.offers model)) =
      some (typeItem t spec p default (some a)) := by
  have htype : itemOf (.parameter (.ofType t.name) spec p)
      ((Occurrence.among t .type (model.annotationsOn (.type t))).flatMap (·.offers model)) =
        some (typeItem t spec p default (some a)) := by
    rw [itemOf_flatMap, findSome?_among t .type (model.annotationsOn (.type t)) spec
      (fun a => typeItem t spec p default (some a)), ha, Option.map_some]
    intro a s
    split
    · rename_i h
      subst h
      exact itemOf_typeOffers hp hd t (some a)
    · rename_i h
      exact itemOf_offers_eq_none fun ho => h ho.1
  unfold Occurrence.ofType
  rw [List.flatMap_append, List.flatMap_append, itemOf_append, itemOf_append, htype,
    Option.some_or, Option.some_or]

/-- Where only methods carry the annotation, they all offer the type's properties as the catalog
has them. -/
theorem itemOf_ofType_of_none (hp : p ∈ spec.parameters) (hd : p.default? = some default)
    {t : JavaType} {methods : List Method}
    (hfirst : firstDenoting (model.annotationsOn (.type t)) spec = none)
    (hc : ∃ m ∈ methods, model.Carries (.method t m) spec) :
    itemOf (.parameter (.ofType t.name) spec p)
        ((Occurrence.ofType model t methods).flatMap (·.offers model)) =
      some (typeItem t spec p default none) := by
  have hbare : ¬ model.Carries (.type t) spec := by
    intro h
    obtain ⟨a, ha⟩ := isSome_firstDenoting h
    rw [hfirst] at ha
    cases ha
  have hmethod : ∀ a m, itemOf (.parameter (.ofType t.name) spec p)
      (Occurrence.offers model ⟨spec, a, t, .method m⟩) =
        some (typeItem t spec p default none) := by
    intro a m
    rw [itemOf_offers_method hp hd, hfirst]
  rw [itemOf_flatMap]
  refine findSome?_eq_some_of_forall ?_ ?_
  · intro o ho
    have hon := Occurrence.carries_of_mem ho
    obtain ⟨s, a, t', target⟩ := o
    obtain ⟨rfl, _⟩ := Occurrence.mem_ofType.mp ho
    by_cases hs : s = spec
    · subst hs
      cases target with
      | type => exact absurd hon hbare
      | method m => exact .inr (hmethod a m)
      | field f => exact .inl rfl
    · exact .inl (itemOf_offers_eq_none fun h => hs h.1)
  · obtain ⟨m, hm, a, ha, hs⟩ := hc
    have ho : ⟨spec, a, t, .method m⟩ ∈ Occurrence.ofType model t methods :=
      Occurrence.mem_ofType.mpr ⟨rfl, Occurrence.method_mem_targets.mpr hm, ha, hs⟩
    exact ⟨_, ho, hmethod a m⟩

theorem itemOf_ofType (hp : p ∈ spec.parameters) (hd : p.default? = some default) {t : JavaType}
    {methods : List Method}
    (hc : model.Carries (.type t) spec ∨ ∃ m ∈ methods, model.Carries (.method t m) spec) :
    itemOf (.parameter (.ofType t.name) spec p)
        ((Occurrence.ofType model t methods).flatMap (·.offers model)) =
      some (typeItem t spec p default (firstDenoting (model.annotationsOn (.type t)) spec)) := by
  cases hfirst : firstDenoting (model.annotationsOn (.type t)) spec with
  | some a => exact itemOf_ofType_of_some hp hd methods hfirst
  | none =>
    rcases hc with hc | hc
    · obtain ⟨a, ha⟩ := isSome_firstDenoting hc
      rw [hfirst] at ha
      cases ha
    · exact itemOf_ofType_of_none hp hd hfirst hc

theorem itemOf_among_method (hp : p ∈ spec.parameters) (hd : p.default? = some default)
    (t : JavaType) (m : Method) (annotations : List Annotation) :
    itemOf (.parameter (.ofMethod t.name m.name) spec p)
        ((Occurrence.among t (.method m) annotations).flatMap (·.offers model)) =
      (firstDenoting annotations spec).map fun a => methodItem t m spec p default (some a) := by
  rw [itemOf_flatMap]
  refine findSome?_among t (.method m) annotations spec _ _ fun a s => ?_
  split
  · rename_i h
    subst h
    exact itemOf_offers_ofMethod hp hd a t m
  · rename_i h
    exact itemOf_offers_eq_none fun ho => h ho.1

theorem itemOf_ofType_method (hp : p ∈ spec.parameters) (hd : p.default? = some default)
    {t : JavaType} {before after : List Method} {m : Method}
    (hc : model.Carries (.method t m) spec)
    (hfirst : ∀ m' ∈ before, m'.name = m.name → ¬ model.Carries (.method t m') spec) :
    itemOf (.parameter (.ofMethod t.name m.name) spec p)
        ((Occurrence.ofType model t (before ++ m :: after)).flatMap (·.offers model)) =
      some (methodItem t m spec p default
        (firstDenoting (model.annotationsOn (.method t m)) spec)) := by
  have htype : itemOf (.parameter (.ofMethod t.name m.name) spec p)
      ((Occurrence.among t .type (model.annotationsOn (.type t))).flatMap (·.offers model)) =
        none := by
    apply itemOf_flatMap_eq_none
    rintro o ho ⟨_, hreach⟩
    obtain ⟨_, m', hm', _⟩ := Occurrence.ofMethod_mem_reaches hreach
    rw [(Occurrence.mem_among.mp ho).2.1] at hm'
    cases hm'
  have hbefore : itemOf (.parameter (.ofMethod t.name m.name) spec p)
      ((before.flatMap fun m' => Occurrence.among t (.method m')
        (model.annotationsOn (.method t m'))).flatMap (·.offers model)) = none := by
    apply itemOf_flatMap_eq_none
    rintro o ho ⟨rfl, hreach⟩
    obtain ⟨m', hm', ho⟩ := List.mem_flatMap.mp ho
    obtain ⟨_, htarget, ha, hs⟩ := Occurrence.mem_among.mp ho
    obtain ⟨_, m'', hm'', hname⟩ := Occurrence.ofMethod_mem_reaches hreach
    obtain rfl : m' = m'' := Target.method.inj (htarget.symm.trans hm'')
    exact hfirst m' hm' hname ⟨o.annotation, ha, hs⟩
  obtain ⟨a, ha⟩ := isSome_firstDenoting hc
  unfold Occurrence.ofType
  rw [List.flatMap_append, List.flatMap_append, List.flatMap_append, List.flatMap_cons,
    List.flatMap_append, List.flatMap_append, itemOf_append, itemOf_append, htype, itemOf_append,
    hbefore, itemOf_append, itemOf_among_method hp hd, ha, Option.map_some, Option.none_or,
    Option.none_or, Option.some_or, Option.some_or]

/-! ## What a project offers -/

theorem itemOf_offersIn {ids : List Nat} {t : JavaType} {methods : List Method} {k : PropertyKey}
    {i : ItemMetadata} (hr : model.Reads ids t methods)
    (hi : itemOf k ((Occurrence.ofType model t methods).flatMap (·.offers model)) = some i)
    (hother : ∀ t' methods', model.Reads ids t' methods' → (t' = t ∧ methods' = methods) ∨
      itemOf k ((Occurrence.ofType model t' methods').flatMap (·.offers model)) = none) :
    itemOf k (offersIn model (model.occurrences ids)) = some i := by
  have hreads : ∀ t' methods', (t', methods') ∈ ids.filterMap model.readable? ↔
      model.Reads ids t' methods' := by
    intro t' methods'
    simp only [List.mem_filterMap, Model.readable?_eq_some]
    rfl
  have hfound : itemOf k ((model.occurrences ids).flatMap (·.offers model)) = some i := by
    unfold Model.occurrences
    rw [List.flatMap_assoc, itemOf_flatMap]
    refine findSome?_eq_some_of_forall ?_ ⟨(t, methods), (hreads t methods).mpr hr, hi⟩
    rintro ⟨t', methods'⟩ h
    rcases hother t' methods' ((hreads t' methods').mp h) with ⟨rfl, rfl⟩ | hnone
    · exact .inr hi
    · exact .inl hnone
  unfold offersIn
  rw [itemOf_append, itemOf_append, hfound, Option.some_or, Option.some_or]

theorem itemOf_ofType_eq_none {t : JavaType} {methods : List Method} {reach : Reach}
    (h : ∀ o : Occurrence, reach ∈ o.reaches → o.declaringType.name ≠ t.name) :
    itemOf (.parameter reach spec p)
      ((Occurrence.ofType model t methods).flatMap (·.offers model)) = none := by
  apply itemOf_flatMap_eq_none
  rintro o ho ⟨_, hreach⟩
  obtain ⟨rfl, _⟩ := Occurrence.mem_ofType.mp ho
  exact h o hreach rfl

theorem filter_eq_singleton {α κ : Type} [DecidableEq κ] {key : α → κ} {l : List α}
    (hl : (l.map key).Nodup) {a : α} (ha : a ∈ l) : l.filter (fun b => key b == key a) = [a] := by
  induction l with
  | nil => exact absurd ha List.not_mem_nil
  | cons b l ih =>
    rw [List.map_cons, List.nodup_cons] at hl
    rcases List.mem_cons.mp ha with rfl | ha
    · have hnone : l.filter (fun b => key b == key a) = [] := by
        rw [List.filter_eq_nil_iff]
        intro c hc he
        exact hl.1 (List.mem_map.mpr ⟨c, hc, beq_iff_eq.mp he⟩)
      rw [List.filter_cons_of_pos (by exact beq_self_eq_true (key a)), hnone]
    · have hne : ¬ (key b == key a) := fun he =>
        hl.1 (List.mem_map.mpr ⟨a, ha, (beq_iff_eq.mp he).symm⟩)
      rw [List.filter_cons_of_neg (by exact hne), ih hl.2 ha]

theorem Model.filter_naiveProperties {ids : List Nat} (hslash : model.Slashless ids)
    {k : PropertyKey} {i : ItemMetadata}
    (hi : itemOf k (offersIn model (model.occurrences ids)) = some i) :
    (model.naiveProperties ids).properties.filter (·.name == i.name) = [i] := by
  obtain ⟨f, hf, rfl⟩ := Option.map_eq_some_iff.mp hi
  have hmem : f.item ∈ (model.naiveProperties ids).properties := by
    rw [Model.naiveProperties_by_key hslash]
    rw [← FirstOfEach.find?_firstOfEach] at hf
    exact List.mem_map_of_mem (List.mem_of_find?_eq_some hf)
  exact filter_eq_singleton (FirstOfEach.nodup_map_firstOfEach _ _) hmem

end

/-! ## The values of a project's properties -/

/-- In a type of which no other has the name, each property of the type has the value of the first
annotation on the type, or the catalog's where there is none, and each property of a method that
of the first annotation on the first method of the name that carries one. -/
theorem projectProperties_values (model : Model) (scope : Scope) (ids : List Nat)
    (hids : model.resolveProject scope = .ok ids) (hslash : model.Slashless ids)
    (t : JavaType) (methods : List Method) (hr : model.Reads ids t methods)
    (hunique : ∀ t' methods', model.Reads ids t' methods' → t'.name = t.name →
      t' = t ∧ methods' = methods) :
    ∃ info, projectProperties model scope = .ok info ∧
      ∀ spec, ∀ p ∈ spec.parameters, ∀ default, p.default? = some default →
        ((model.Carries (.type t) spec ∨ ∃ m ∈ methods, model.Carries (.method t m) spec) →
          info.properties.filter (·.name == t.name ++ "/" ++ spec.simpleName ++ "/" ++ p.name) =
            [typeItem t spec p default (firstDenoting (model.annotationsOn (.type t)) spec)]) ∧
        ∀ before m after, methods = before ++ m :: after → model.Carries (.method t m) spec →
          (∀ m' ∈ before, m'.name = m.name → ¬ model.Carries (.method t m') spec) →
          info.properties.filter
              (·.name == t.name ++ "/" ++ m.name ++ "/" ++ spec.simpleName ++ "/" ++ p.name) =
            [methodItem t m spec p default
              (firstDenoting (model.annotationsOn (.method t m)) spec)] := by
  refine ⟨model.naiveProperties ids, projectProperties_of_resolve hids, ?_⟩
  intro spec p hp default hd
  have hother : ∀ reach, (∀ o : Occurrence, reach ∈ o.reaches → o.declaringType.name = t.name) →
      ∀ t' methods', model.Reads ids t' methods' → (t' = t ∧ methods' = methods) ∨
        itemOf (.parameter reach spec p)
          ((Occurrence.ofType model t' methods').flatMap (·.offers model)) = none := by
    intro reach hreach t' methods' hr'
    by_cases hn : t'.name = t.name
    · exact .inl (hunique t' methods' hr' hn)
    · exact .inr (itemOf_ofType_eq_none fun o ho he => hn (he.symm.trans (hreach o ho)))
  constructor
  · intro hc
    have hi := itemOf_offersIn hr (itemOf_ofType hp hd hc)
      (hother (.ofType t.name) fun _ => Occurrence.name_of_ofType_mem_reaches)
    exact Model.filter_naiveProperties hslash hi
  · rintro before m after rfl hc hfirst
    have hi := itemOf_offersIn hr (itemOf_ofType_method hp hd hc hfirst)
      (hother (.ofMethod t.name m.name) fun _ ho => (Occurrence.ofMethod_mem_reaches ho).1)
    exact Model.filter_naiveProperties hslash hi

theorem projectProperties_values_orders :
    ∃ info, projectProperties orders .sourcesOnly = .ok info ∧
      (info.properties.filter (·.name == "org.acme.OrderResource/Bulkhead/value")).map
        (·.defaultValue) = [some "10"] ∧
      (info.properties.filter (·.name == "org.acme.OrderResource/place/Bulkhead/value")).map
        (·.defaultValue) = [some "5"] := by
  obtain ⟨info, hinfo, hvalues⟩ := projectProperties_values orders .sourcesOnly [0] rfl
    slashless_orders orderResource orderResource.methods (reads_orders.mpr ⟨rfl, rfl⟩)
    (fun _ _ hr _ => reads_orders.mp hr)
  obtain ⟨htype, hmethod⟩ := hvalues Catalog.bulkhead Catalog.bulkhead.parameters[0]
    List.mem_cons_self "10" rfl
  refine ⟨info, hinfo, ?_, ?_⟩
  · have hname : "org.acme.OrderResource/Bulkhead/value" = orderResource.name ++ "/" ++
        Catalog.bulkhead.simpleName ++ "/" ++ Catalog.bulkhead.parameters[0].name := by
      decide +kernel
    rw [hname, htype (.inr ⟨placeOrder, List.mem_cons_self, placeOrder_carries_bulkhead⟩)]
    decide +kernel
  · have hname : "org.acme.OrderResource/place/Bulkhead/value" = orderResource.name ++ "/" ++
        placeOrder.name ++ "/" ++ Catalog.bulkhead.simpleName ++ "/" ++
        Catalog.bulkhead.parameters[0].name := by
      decide +kernel
    rw [hname, hmethod [] placeOrder _ rfl placeOrder_carries_bulkhead fun _ h =>
      absurd h List.not_mem_nil]
    decide +kernel

end FaultTolerance
