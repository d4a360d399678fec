import FaultTolerance.Properties
import FaultTolerance.Settings.Basic

/-! The two requests an editor makes: the properties of a project, and the diagnostics of some
of its documents. -/
namespace FaultTolerance

/-- Why a request fails as a whole. -/
inductive AnalysisError where
  | typeModelUnavailable (cause : ModelError)
  deriving DecidableEq, Repr

def AnalysisError.message : AnalysisError → String
  | .typeModelUnavailable cause => "type model unavailable: " ++ cause.message

namespace Analyzer

/-- The properties of the types that a scope covers. -/
def properties (model : Model) (scope : Scope) : Except AnalysisError ProjectInfo :=
  (projectProperties model scope).mapError .typeModelUnavailable

/-- The properties in the scope of the settings. -/
def configuredProperties (settings : Settings) (model : Model) :
    Except AnalysisError ProjectInfo :=
  properties model settings.properties.scope

/-- The diagnostics of a type. One that cannot be read has none. -/
def typeDiagnostics (settings : DiagnosticSettings) (format : DocumentFormat) (model : Model)
    (id : Nat) : List Diagnostic :=
  match Fallback.findings model settings.fallbackSignature id with
  | .ok found => found.map (Diagnostic.ofFinding format)
  | .error _ => []

/-- The diagnostics of a document. An unknown document has none. -/
def documentDiagnostics (settings : DiagnosticSettings) (format : DocumentFormat) (model : Model)
    (uri : String) : Except ModelError (List Diagnostic) :=
  if settings.enabled then
    match model.typesInDocument uri with
    | .ok ids => .ok (ids.flatMap (typeDiagnostics settings format model))
    | .error (.unknownDocument _) => .ok []
    | .error cause => .error cause
  else .ok []

/-- Puts an entry in its place among entries sorted by key, instead of one of the same key. -/
def insertEntry {α : Type} (key : String) (value : α) : List (String × α) → List (String × α)
  | [] => [(key, value)]
  | (k, v) :: entries =>
    if key < k then (key, value) :: (k, v) :: entries
    else if key = k then (key, value) :: entries
    else (k, v) :: insertEntry key value entries

/-- The diagnostics of each document requested, sorted by document. A format in the request goes
before the one in the settings. -/
def diagnostics (settings : Settings) (model : Model) (uris : List String)
    (format : Option DocumentFormat) : Except AnalysisError (List (String × List Diagnostic)) :=
  let format := format.getD settings.diagnostics.documentFormat
  (uris.foldlM (fun entries uri => do
    let found ← documentDiagnostics settings.diagnostics format model uri
    return insertEntry uri found entries) []).mapError .typeModelUnavailable

end Analyzer
end FaultTolerance
