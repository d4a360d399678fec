import FaultTolerance.Properties
import FaultTolerance.Proofs.FirstOfEach
import FaultTolerance.Proofs.Occurrences

/-! The derivation of properties said without its state.

* `PropertyKey`: what a property is about; its name is read off it.
* `Offer`: one property that a collector is asked to take, with its key and its hint.
* `offersIn`: all offers of a project in one list, nothing left out for being there already.
* `collect`: what a collector keeps of a list of offers, the first of each name. -/
namespace FaultTolerance
open Java
set_option autoImplicit false

/-! ## Keys -/

/-- What a property applies to: one type, one method of a type, or all uses of its annotation. -/
inductive Reach where
  | ofType (type : String)
  | ofMethod (type method : String)
  | everywhere
  deriving DecidableEq

/-- What a property is about: a parameter of an annotation within some reach, or the switch for all
policies. -/
inductive PropertyKey where
  | parameter (reach : Reach) (spec : Catalog.Spec) (p : Catalog.Parameter)
  | nonFallback
  deriving DecidableEq

def PropertyKey.name : PropertyKey → String
  | .parameter (.ofType type) spec p => type ++ "/" ++ spec.simpleName ++ "/" ++ p.name
  | .parameter (.ofMethod type method) spec p =>
    type ++ "/" ++ method ++ "/" ++ spec.simpleName ++ "/" ++ p.name
  | .parameter .everywhere spec p => spec.simpleName ++ "/" ++ p.name
  | .nonFallback => Catalog.nonFallbackEnabled

/-! ## Offers -/

/-- A property offered to a collector, and the hint that goes before it. -/
structure Offer where
  key : PropertyKey
  item : ItemMetadata
  hint? : Option ItemHint

/-- One offer for each parameter that has a default, in catalog order. -/
def offersOf (reach : Reach) (spec : Catalog.Spec)
    (item : Catalog.Parameter → String → ItemMetadata) : List Offer :=
  spec.parameters.filterMap fun p => p.default?.map fun default =>
    ⟨.parameter reach spec p, item p default, p.hint.map (·.toItemHint)⟩

theorem mem_offersOf {reach : Reach} {spec : Catalog.Spec}
    {item : Catalog.Parameter → String → ItemMetadata} {o : Offer} :
    o ∈ offersOf reach spec item ↔ ∃ p ∈ spec.parameters, ∃ default, p.default? = some default ∧
      o = ⟨.parameter reach spec p, item p default, p.hint.map (·.toItemHint)⟩ := by
  unfold offersOf
  rw [List.mem_filterMap]
  simp only [Option.map_eq_some_iff]
  simp only [eq_comm]

/-- The literal that an annotation writes for a parameter. -/
def written? (a : Option Annotation) (p : Catalog.Parameter) : Option String :=
  (a.bind (·.member? p.name)).map fun m => Literal.ofValue m.value

def typeOffers (t : JavaType) (spec : Catalog.Spec) (a : Option Annotation) : List Offer :=
  offersOf (.ofType t.name) spec fun p default =>
    (Tier.ofType t spec).property p ((written? a p).getD default)

def methodOffers (t : JavaType) (m : Method) (spec : Catalog.Spec) (a : Option Annotation) :
    List Offer :=
  offersOf (.ofMethod t.name m.name) spec fun p default =>
    (Tier.ofMethod t m spec).property p ((written? a p).getD default)

def annotationOffers (spec : Catalog.Spec) : List Offer :=
  offersOf .everywhere spec (globalProperty spec)

/-- The offers of one occurrence. One on a method offers the type's properties too, valued from the
type's own annotation. -/
def Occurrence.offers (model : Model) (o : Occurrence) : List Offer :=
  match o.target with
  | .type => typeOffers o.declaringType o.spec (some o.annotation)
  | .method m =>
    typeOffers o.declaringType o.spec (typeAnnotation? model o.declaringType o.spec) ++
      methodOffers o.declaringType m o.spec (some o.annotation)
  | .field _ => []

/-! ## The offers of a project -/

/-- The annotations that some occurrences use, in the order of their first use. -/
def usedIn (found : List Occurrence) : List Catalog.Spec := (found.map (·.spec)).eraseDups

/-- Every offer of some occurrences, then those of the annotations they use, then the switch. -/
def offersIn (model : Model) (found : List Occurrence) : List Offer :=
  found.flatMap (·.offers model) ++ (usedIn found).flatMap annotationOffers ++
    [⟨.nonFallback, nonFallbackProperty, none⟩]

/-! ## Collecting -/

/-- The first property and the first hint of each name. -/
def collect (offers : List Offer) : Collector where
  properties := firstOfEach (·.name) (offers.map (·.item))
  hints := firstOfEach (·.name) (offers.filterMap (·.hint?))

def Model.naiveProperties (model : Model) (ids : List Nat) : ProjectInfo :=
  (collect (offersIn model (model.occurrences ids))).toProjectInfo

end FaultTolerance
