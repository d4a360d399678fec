import FaultTolerance.Text.Affix
import FaultTolerance.Metadata.Item

/-! The shape of the annotation catalog: which parameters an annotation has, and what is known
about each of them. -/
namespace FaultTolerance.Catalog

/-- The values suggested for a parameter of an enumeration type. -/
structure EnumHint where
  name : String
  values : List String
  deriving DecidableEq, Repr

/-- The hint as part of a project's metadata. -/
def EnumHint.toItemHint (h : EnumHint) : ItemHint where
  name := h.name
  sourceType := some h.name
  isEnum := true
  binary := true
  values := h.values.map fun value => { value }

/-- A parameter of a catalog annotation. -/
structure Parameter where
  name : String
  type : String
  /-- The default as a configuration literal. Without one the parameter is required. -/
  default? : Option String
  summary : Option String
  returns : Option String
  /-- The member's name and descriptor on the annotation type. -/
  sourceMethod : Option String
  hint : Option EnumHint
  deriving DecidableEq, Repr

def Parameter.isRequired (p : Parameter) : Bool := p.default?.isNone

/-- The summary, then an indented block that says what the member returns. -/
def Parameter.documentation (p : Parameter) : String :=
  let summary := p.summary.getD ""
  match p.returns with
  | none => summary
  | some returns =>
    let block := " *  **Returns:**\n    \n     *  " ++ returns
    if summary = "" then block else summary ++ "\n\n" ++ block

/-- An annotation and its parameters in catalog order. -/
structure Spec where
  qualifiedName : String
  parameters : List Parameter
  deriving DecidableEq, Repr

def Spec.simpleName (s : Spec) : String :=
  .ofList (Text.lastSegment (· = '.') s.qualifiedName.toList)

def Spec.parameter? (s : Spec) (name : String) : Option Parameter :=
  s.parameters.find? (·.name == name)

end FaultTolerance.Catalog
