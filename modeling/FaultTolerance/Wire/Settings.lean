import FaultTolerance.Settings.Basic
import FaultTolerance.Wire.Diagnostic
import FaultTolerance.Wire.Toml.Reader

/-! The written form of the settings. A section that is left out is the default section. In a section
that is there, a key that is left out has a default of its own. No other keys are allowed. -/
namespace FaultTolerance
open Wire

namespace Scope

def text : Scope → String
  | .sourcesOnly => "sources-only"
  | .sourcesAndDependencies => "sources-and-dependencies"

def shape : Shape := .choice [text .sourcesOnly, text .sourcesAndDependencies]

def toData (s : Scope) : Data := .string s.text

/-- The scope that data in normal form stands for. -/
def ofData : Data → Scope
  | .string "sources-only" => .sourcesOnly
  | _ => .sourcesAndDependencies

def read (fmt : Format) (d : Data) : Except Fault Scope := (shape.read fmt d).map ofData

end Scope

namespace PropertySettings

def toData (s : PropertySettings) : Data := .record [("scope", s.scope.toData)]

def shape : Shape :=
  .record "PropertiesConfig" true [("scope", Scope.shape, some (Scope.toData .sourcesAndDependencies))]

/-- The section that data in normal form stands for. -/
def ofData (d : Data) : PropertySettings := { scope := .ofData (d.recordAt "scope") }

end PropertySettings

namespace DiagnosticSettings

def toData (s : DiagnosticSettings) : Data := .record [
  ("enabled", .boolean s.enabled),
  ("fallback_signature", .boolean s.fallbackSignature),
  ("document_format", s.documentFormat.toData)]

def shape : Shape := .record "DiagnosticsConfig" true [
  ("enabled", .boolean, some (.boolean true)),
  ("fallback_signature", .boolean, some (.boolean true)),
  ("document_format", DocumentFormat.shape, some (DocumentFormat.toData .markdown))]

/-- The section that data in normal form stands for. -/
def ofData (d : Data) : DiagnosticSettings where
  enabled := d.flagAt "enabled"
  fallbackSignature := d.flagAt "fallback_signature"
  documentFormat := .ofData (d.recordAt "document_format")

end DiagnosticSettings

namespace LoggingSettings

def toData (s : LoggingSettings) : Data :=
  .record [("level", .string s.level), ("json", .boolean s.json)]

def shape : Shape := .record "LoggingConfig" true [
  ("level", .string, some (.string "info")),
  ("json", .boolean, some (.boolean false))]

/-- The section that data in normal form stands for. -/
def ofData (d : Data) : LoggingSettings where
  level := d.textAt "level"
  json := d.flagAt "json"

end LoggingSettings

namespace Settings

def toData (s : Settings) : Data := .record [
  ("properties", s.properties.toData),
  ("diagnostics", s.diagnostics.toData),
  ("logging", s.logging.toData)]

def shape : Shape := .record "FaultToleranceConfig" true [
  ("properties", PropertySettings.shape, some (PropertySettings.toData {})),
  ("diagnostics", DiagnosticSettings.shape, some (DiagnosticSettings.toData {})),
  ("logging", LoggingSettings.shape, some (LoggingSettings.toData {}))]

/-- The settings that data in normal form stands for. -/
def ofData (d : Data) : Settings where
  properties := .ofData (d.recordAt "properties")
  diagnostics := .ofData (d.recordAt "diagnostics")
  logging := .ofData (d.recordAt "logging")

def read (fmt : Format) (d : Data) : Except Fault Settings := (shape.read fmt d).map ofData

/-- The settings that a TOML document holds. -/
def parse (text : String) : Except Fault Settings := Toml.decode (read .toml) text

/-- What is said about a document that is TOML and holds no settings. -/
def rejection (m : Misfit) : String := "failed to parse toml config: " ++ m.message

end Settings
end FaultTolerance
