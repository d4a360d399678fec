import FaultTolerance.CommandLine.Project
import FaultTolerance.Wire.Json.Printer
import FaultTolerance.Wire.Metadata

/-! The answers of the program, as lines for a reader or as JSON. -/
namespace FaultTolerance.CommandLine
open Wire

/-- The text of some lines. -/
def unlines (lines : List String) : String := String.join (lines.map (· ++ "\n"))

/-- Data as a text of its own. -/
def jsonText (d : Data) : String := unlines [Json.pretty 0 d]

/-! ## Properties -/

/-- A property with its type and its default. -/
def propertyLine (p : ItemMetadata) : String :=
  p.name ++ " (" ++ p.type ++ ") = " ++ p.defaultValue.getD ""

def propertiesText (i : ProjectInfo) : String :=
  unlines (i.properties.map propertyLine ++
    ["summary: " ++ toString i.properties.length ++ " properties, " ++
      toString i.hints.length ++ " hints"])

/-! ## Diagnostics -/

/-- The name of a severity in a line. -/
def severityWord : Severity → String
  | .error => "error"
  | .warning => "warning"
  | .information => "info"
  | .hint => "hint"

/-- The diagnostics of a project's documents, sorted by document. -/
structure DiagnosticsReport where
  project : Project
  entries : List (String × List Diagnostic)

namespace DiagnosticsReport

def all (r : DiagnosticsReport) : List Diagnostic := r.entries.flatMap Prod.snd

/-- The number of diagnostics of a severity. -/
def count (r : DiagnosticsReport) (s : Severity) : Nat := r.all.countP (·.severity == s)

/-- A diagnostic with the path of its file; lines and columns count from one. -/
def line (path : String) (d : Diagnostic) : String :=
  path ++ ":" ++ toString (d.range.start.line + 1) ++ ":" ++
    toString (d.range.start.character + 1) ++ ": " ++ severityWord d.severity ++ "[" ++
    d.code.text ++ "] " ++ d.message

def text (r : DiagnosticsReport) : String :=
  unlines ((r.entries.flatMap fun (uri, ds) => ds.map (line (r.project.pathOf uri))) ++
    ["summary: " ++ toString (r.count .error) ++ " errors, " ++ toString (r.count .warning) ++
      " warnings"])

def toData (r : DiagnosticsReport) : Data := .record [
  ("diagnostics", .record (r.entries.map fun (uri, ds) =>
    (uri, .sequence (ds.map Diagnostic.toData)))),
  ("summary", .record [
    ("errors", .integer (r.count .error)),
    ("warnings", .integer (r.count .warning))])]

/-- The exit code: whether there is an error. -/
def exitCode (r : DiagnosticsReport) : Nat := if 0 < r.count .error then 1 else 0

end DiagnosticsReport
end FaultTolerance.CommandLine
