import FaultTolerance.Diagnostic
import FaultTolerance.Model.Basic
import FaultTolerance.Text.Space

/-! The settings of an analysis, in three sections, with the defaults of every key. -/
namespace FaultTolerance
open Text

/-- Settings of the derivation of properties. -/
structure PropertySettings where
  scope : Scope := .sourcesAndDependencies
  deriving DecidableEq, Repr, Inhabited

/-- Settings of the diagnostics. -/
structure DiagnosticSettings where
  enabled : Bool := true
  /-- Whether a lone fallback candidate must match the annotated method. -/
  fallbackSignature : Bool := true
  /-- The format of a request that names none. -/
  documentFormat : DocumentFormat := .markdown
  deriving DecidableEq, Repr

/-- Settings of the log. -/
structure LoggingSettings where
  level : String := "info"
  json : Bool := false
  deriving DecidableEq, Repr

structure Settings where
  properties : PropertySettings := {}
  diagnostics : DiagnosticSettings := {}
  logging : LoggingSettings := {}
  deriving DecidableEq, Repr

/-- An ASCII capital as a small letter, any other character as it is. -/
def lowerAscii (c : Char) : Char :=
  if 'A' ≤ c && c ≤ 'Z' then Char.ofNat (c.toNat + 32) else c

/-- The directives that a log level stands for. The plain levels are told apart from case, and
anything else is taken for directives already. -/
def LoggingSettings.directivesOf (level : String) : String :=
  let trimmed := trim level.toList
  match String.ofList (trimmed.map lowerAscii) with
  | "" => "info"
  | "trace" => "trace"
  | "debug" => "debug"
  | "info" => "info"
  | "warn" => "warn"
  | "warning" => "warn"
  | "error" => "error"
  | _ => .ofList trimmed

def LoggingSettings.directives (s : LoggingSettings) : String := directivesOf s.level

end FaultTolerance
