import FaultTolerance.Analyzer
import FaultTolerance.Proofs.Analysis.Unranged
import FaultTolerance.Proofs.Derivation.TypeOrder

/-! Where defaults come from. `Model.valuedProperties` gives each property of a project together with the
annotation value that its default is taken from (`properties_eq_map_valued`). To reword the values that are
kept as written in a project is to reword those of its properties (`valuedProperties_reworded`), so a
property that does not come from such a value does not depend on their wording. -/
namespace FaultTolerance
open Java
set_option autoImplicit false

/-! ## Values kept as written -/

namespace Java

mutual

/-- Whether a value is kept as written, or holds one that is. -/
def Value.isOther : Value → Bool
  | .other _ => true
  | .array items => anyOther items
  | _ => false

def anyOther : List Value → Bool
  | [] => false
  | v :: vs => v.isOther || anyOther vs

end

mutual

theorem Value.isOther_reworded (w : String → String) (v : Value) :
    (v.reworded w).isOther = v.isOther := by
  cases v with
  | array items => rw [Value.reworded, Value.isOther, Value.isOther, anyOther_rewordedAll w items]
  | _ => rfl

theorem anyOther_rewordedAll (w : String → String) (vs : List Value) :
    anyOther (rewordedAll w vs) = anyOther vs := by
  cases vs with
  | nil => rfl
  | cons v vs => rw [rewordedAll, anyOther, anyOther, v.isOther_reworded w, anyOther_rewordedAll w vs]

end

mutual

theorem Value.reworded_of_plain (w : String → String) {v : Value} (h : v.isOther = false) :
    v.reworded w = v := by
  cases v with
  | array items => rw [Value.reworded, rewordedAll_of_plain w h]
  | other text => cases h
  | _ => rfl

theorem rewordedAll_of_plain (w : String → String) {vs : List Value} (h : anyOther vs = false) :
    rewordedAll w vs = vs := by
  cases vs with
  | nil => rfl
  | cons v vs =>
    obtain ⟨hv, hvs⟩ := Bool.or_eq_false_iff.mp h
    rw [rewordedAll, Value.reworded_of_plain w hv, rewordedAll_of_plain w hvs]

end
end Java

/-! ## Properties with the values of their defaults -/

def ItemMetadata.withoutDefault (i : ItemMetadata) : ItemMetadata := { i with defaultValue := none }

/-- A property, and the value that its default is taken from where an annotation writes one. -/
@[ext] structure ValuedProperty where
  item : ItemMetadata
  value? : Option Value
  default_of_value : ∀ v, value? = some v → item.defaultValue = some (Literal.ofValue v)

namespace ValuedProperty

/-- The property with a default that no annotation writes. -/
def ofItem (item : ItemMetadata) : ValuedProperty where
  item
  value? := none
  default_of_value _ h := nomatch h

/-- Whether the default comes from a value that is kept as written. -/
def isOther (x : ValuedProperty) : Bool := x.value?.any Value.isOther

/-- The property with its value reworded. -/
def reworded (w : String → String) (x : ValuedProperty) : ValuedProperty where
  item := { x.item with
    defaultValue := (x.value?.map fun v => Literal.ofValue (v.reworded w)).or x.item.defaultValue }
  value? := x.value?.map (Value.reworded w)
  default_of_value v h := by
    obtain ⟨u, hu, rfl⟩ := Option.map_eq_some_iff.mp h
    rw [hu]
    rfl

variable (w : String → String)

theorem name_reworded (x : ValuedProperty) : (x.reworded w).item.name = x.item.name := rfl

theorem withoutDefault_reworded (x : ValuedProperty) :
    (x.reworded w).item.withoutDefault = x.item.withoutDefault := rfl

theorem isOther_reworded (x : ValuedProperty) : (x.reworded w).isOther = x.isOther := by
  obtain ⟨item, _ | v, _⟩ := x
  · rfl
  · exact v.isOther_reworded w

theorem reworded_of_not_isOther {x : ValuedProperty} (h : x.isOther = false) :
    x.reworded w = x := by
  obtain ⟨item, _ | v, hdefault⟩ := x
  · rfl
  · have hv : v.reworded w = v := v.reworded_of_plain w h
    ext1
    · change { item with defaultValue := some (Literal.ofValue (v.reworded w)) } = item
      rw [hv, ← hdefault v rfl]
    · exact congrArg some hv

/-- Two properties that are the same once reworded differ in their defaults at most, and only where these
come from values that are kept as written. -/
theorem alike_of_reworded {w : String → String} {x x' : ValuedProperty}
    (h : x.reworded w = x'.reworded w) :
    x.item.withoutDefault = x'.item.withoutDefault ∧ x.isOther = x'.isOther ∧
      (x.isOther = false → x = x') := by
  have hother : x.isOther = x'.isOther := by
    rw [← x.isOther_reworded w, h, isOther_reworded]
  refine ⟨?_, hother, ?_⟩
  · rw [← withoutDefault_reworded w, h, withoutDefault_reworded]
  · intro hplain
    rw [← reworded_of_not_isOther w hplain, h, reworded_of_not_isOther w (hother ▸ hplain)]

end ValuedProperty

/-! ## What occurrences offer -/

/-- The value that an annotation writes for a parameter. -/
def writtenValue? (a : Option Annotation) (p : Catalog.Parameter) : Option Value :=
  (a.bind (·.member? p.name)).map (·.value)

/-- The property of a parameter in a tier, with the value that is written for it. -/
def Tier.valued (tier : Tier) (p : Catalog.Parameter) (value? : Option Value) (default : String) :
    ValuedProperty where
  item := tier.property p ((value?.map Literal.ofValue).getD default)
  value?
  default_of_value v h := by
    rw [h]
    rfl

/-- The properties of a tier, valued from `a`. -/
def valuedTier (spec : Catalog.Spec) (tier : Tier) (a : Option Annotation) : List ValuedProperty :=
  spec.parameters.filterMap fun p => p.default?.map (tier.valued p (writtenValue? a p))

/-- The properties that an occurrence offers. -/
def Occurrence.valued (model : Model) (o : Occurrence) : List ValuedProperty :=
  match o.target with
  | .type => valuedTier o.spec (.ofType o.declaringType o.spec) (some o.annotation)
  | .method m =>
    valuedTier o.spec (.ofType o.declaringType o.spec)
        (typeAnnotation? model o.declaringType o.spec) ++
      valuedTier o.spec (.ofMethod o.declaringType m o.spec) (some o.annotation)
  | .field _ => []

/-- The properties that some occurrences offer, then those of the annotations they use and the switch,
whose defaults no annotation writes. -/
def valuedIn (model : Model) (found : List Occurrence) : List ValuedProperty :=
  found.flatMap (·.valued model) ++
    (tailOffers (usedIn found)).map fun f => .ofItem f.item

/-- The first property of each name, with the value its default is taken from. -/
def Model.valuedProperties (model : Model) (ids : List Nat) : List ValuedProperty :=
  firstOfEach (·.item.name) (valuedIn model (model.occurrences ids))

theorem written?_eq_map (a : Option Annotation) (p : Catalog.Parameter) :
    written? a p = (writtenValue? a p).map Literal.ofValue := by
  rw [written?, writtenValue?, Option.map_map]
  rfl

theorem map_item_valuedTier (reach : Reach) (spec : Catalog.Spec) (tier : Tier)
    (a : Option Annotation) : (valuedTier spec tier a).map (·.item) =
      (offersOf reach spec fun p default =>
        tier.property p ((written? a p).getD default)).map (·.item) := by
  unfold valuedTier offersOf
  simp only [List.map_filterMap, Option.map_map, Function.comp_def, written?_eq_map, Tier.valued]

theorem Occurrence.map_item_valued (model : Model) (o : Occurrence) :
    (o.valued model).map (·.item) = (o.offers model).map (·.item) := by
  unfold Occurrence.valued Occurrence.offers
  cases o.target with
  | type => exact map_item_valuedTier ..
  | method m =>
    simp only [List.map_append]
    rw [map_item_valuedTier (.ofType o.declaringType.name),
      map_item_valuedTier (.ofMethod o.declaringType.name m.name)]
    rfl
  | field f => rfl

theorem map_item_valuedIn (model : Model) (found : List Occurrence) :
    (valuedIn model found).map (·.item) = (offersIn model found).map (·.item) := by
  rw [offersIn_eq_append_tail, valuedIn, List.map_append, List.map_append, List.map_flatMap,
    List.map_flatMap, List.map_map]
  simp only [Occurrence.map_item_valued]
  rfl

theorem Model.map_item_valuedProperties (model : Model) (ids : List Nat) :
    (model.valuedProperties ids).map (·.item) = (model.naiveProperties ids).properties := by
  change _ = firstOfEach (·.name) ((offersIn model (model.occurrences ids)).map (·.item))
  rw [← map_item_valuedIn, FirstOfEach.firstOfEach_map]
  rfl

/-! ## Projects reworded -/

theorem writtenValue?_withMembers (w : String → String) (a : Option Annotation)
    (p : Catalog.Parameter) :
    writtenValue? (a.map ( Annotation.withMembers (Member.reworded w))) p =
      (writtenValue? a p).map (Value.reworded w) := by
  cases a with
  | none => rfl
  | some a =>
    simp only [writtenValue?, Option.map_some, Option.bind_some,
      Annotation.member?_withMembers (Member.reworded w) (fun _ => rfl), Option.map_map]
    rfl

theorem valuedTier_withMembers (w : String → String) (spec : Catalog.Spec) (tier : Tier)
    (a : Option Annotation) :
    valuedTier spec tier (a.map ( Annotation.withMembers (Member.reworded w))) =
      (valuedTier spec tier a).map (ValuedProperty.reworded w) := by
  unfold valuedTier
  simp only [writtenValue?_withMembers, List.map_filterMap, Option.map_map]
  congr 1
  funext p
  congr 1
  funext default
  cases writtenValue? a p <;> rfl

theorem Occurrence.valued_withMembers (w : String → String) (m m' : MemoryModel) (o : Occurrence) :
    (o.withMembers (Member.reworded w)).valued m'.toModel =
      (o.valued m.toModel).map (ValuedProperty.reworded w) := by
  obtain ⟨spec, a, t, target⟩ := o
  have hown (tier : Tier) := valuedTier_withMembers w spec tier (some a)
  cases target with
  | type => exact hown (.ofType t spec)
  | method method =>
    have htype := typeAnnotation?_withMembers (Member.reworded w) m m' t spec
    change valuedTier spec (.ofType t spec) (typeAnnotation? _ (t.withMembers _) spec) ++
      valuedTier spec (.ofMethod t method spec) _ = _
    rw [htype, valuedTier_withMembers]
    exact (congrArg _ (hown (.ofMethod t method spec))).trans (List.map_append).symm
  | field f => rfl

namespace MemoryModel
variable {m : MemoryModel} (w : String → String)

theorem occurrences_reworded (h : m.loaded = true) (scope : Scope) :
    (m.reworded w).toModel.occurrences (covered scope 0 (m.reworded w).types) =
      (m.toModel.occurrences (covered scope 0 m.types)).map
        (Occurrence.withMembers (Member.reworded w)) := by
  have hloaded : (m.reworded w).loaded = true := h
  rw [occurrences_covered hloaded, occurrences_covered h, List.map_flatMap]
  change ((m.types.map (JavaType.reworded w)).filter _).flatMap _ = _
  rw [List.filter_map, List.flatMap_map]
  congr 1
  funext t
  exact Occurrence.ofType_withMembers (Member.reworded w) m (m.reworded w) t t.methods

theorem usedIn_reworded (found : List Occurrence) :
    usedIn (found.map (Occurrence.withMembers (Member.reworded w))) = usedIn found := by
  rw [usedIn, List.map_map]
  rfl

/-- The properties of a project in a scope, with the values that their defaults are taken from. -/
def valuedProperties (m : MemoryModel) (scope : Scope) : List ValuedProperty :=
  m.toModel.valuedProperties (covered scope 0 m.types)

/-- The properties of a reworded project are those of the project, reworded. -/
theorem valuedProperties_reworded (h : m.loaded = true) (scope : Scope) :
    (m.reworded w).valuedProperties scope =
      (m.valuedProperties scope).map (ValuedProperty.reworded w) := by
  unfold valuedProperties Model.valuedProperties
  rw [occurrences_reworded w h]
  generalize m.toModel.occurrences (covered scope 0 m.types) = found
  have hvalued : valuedIn (m.reworded w).toModel
      (found.map (Occurrence.withMembers (Member.reworded w))) =
        (valuedIn m.toModel found).map (ValuedProperty.reworded w) := by
    rw [valuedIn, usedIn_reworded, List.flatMap_map, valuedIn, List.map_append, List.map_flatMap,
      List.map_map]
    simp only [Occurrence.valued_withMembers w m]
    rfl
  rw [hvalued, FirstOfEach.firstOfEach_map]
  simp only [ValuedProperty.name_reworded]

/-- Projects that are the same once reworded have the same properties, but for the defaults that come from
values kept as written. -/
theorem valuedProperties_alike {m m' : MemoryModel} {w : String → String} (h : m.loaded = true)
    (hsame : m.reworded w = m'.reworded w) (scope : Scope) :
    List.Forall₂ (fun x x' : ValuedProperty => x.item.withoutDefault = x'.item.withoutDefault ∧
        x.isOther = x'.isOther ∧ (x.isOther = false → x = x'))
      (m.valuedProperties scope) (m'.valuedProperties scope) := by
  have h' : m'.loaded = true := (congrArg loaded hsame).symm.trans h
  have hmap : (m.valuedProperties scope).map (ValuedProperty.reworded w) =
      (m'.valuedProperties scope).map (ValuedProperty.reworded w) := by
    rw [← valuedProperties_reworded w h, hsame, valuedProperties_reworded w h']
  rw [← List.forall₂_eq_eq_eq, List.forall₂_map_left_iff, List.forall₂_map_right_iff] at hmap
  exact hmap.imp fun x x' hx => ValuedProperty.alike_of_reworded hx

/-- The hints of a project do not depend on the wording of the values in it. -/
theorem hints_alike {m m' : MemoryModel} {w : String → String} (h : m.loaded = true)
    (hsame : m.reworded w = m'.reworded w) (scope : Scope) :
    (m.toModel.naiveProperties (covered scope 0 m.types)).hints =
      (m'.toModel.naiveProperties (covered scope 0 m'.types)).hints := by
  have h' : m'.loaded = true := (congrArg loaded hsame).symm.trans h
  have hused : usedIn (m.toModel.occurrences (covered scope 0 m.types)) =
      usedIn (m'.toModel.occurrences (covered scope 0 m'.types)) := by
    rw [← usedIn_reworded w, ← occurrences_reworded w h, hsame, occurrences_reworded w h',
      usedIn_reworded]
  rw [hints_eq, hints_eq, hused]

end MemoryModel
end FaultTolerance
