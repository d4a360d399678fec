import FaultTolerance.Fallback

/-! Diagnostics about annotations, as they are shown to a user. -/
namespace FaultTolerance
open Text

inductive DiagnosticCode where
  | fallbackMethodDoesNotExist
  | fallbackMethodInvalidSignature
  deriving DecidableEq, Repr, Inhabited

def DiagnosticCode.text : DiagnosticCode → String
  | .fallbackMethodDoesNotExist => "FALLBACK_METHOD_DOES_NOT_EXIST"
  | .fallbackMethodInvalidSignature => "FALLBACK_METHOD_INVALID_SIGNATURE"

inductive Severity where
  | error | warning | information | hint
  deriving DecidableEq, Repr, Inhabited

/-- The number of a severity in the language server protocol. -/
def Severity.protocolNumber : Severity → Nat
  | .error => 1
  | .warning => 2
  | .information => 3
  | .hint => 4

/-- How a message sets off code. -/
inductive DocumentFormat where
  | plainText | markdown
  deriving DecidableEq, Repr, Inhabited

def DocumentFormat.code : DocumentFormat → String → String
  | .plainText, text => text
  | .markdown, text => "`" ++ text ++ "`"

structure Diagnostic where
  range : Range
  message : String
  severity : Severity
  source : String
  code : DiagnosticCode
  deriving DecidableEq, Repr, Inhabited

namespace Diagnostic

/-- The source named by every diagnostic of this library. -/
def analyzerSource : String := "microprofile-faulttolerance"

def error (range : Range) (code : DiagnosticCode) (message : String) : Diagnostic :=
  { range, message, severity := .error, source := analyzerSource, code }

/-- The diagnostic for a finding. -/
def ofFinding (format : DocumentFormat) (f : Fallback.Finding) : Diagnostic :=
  match f.problem with
  | .missingMethod name =>
    error f.range .fallbackMethodDoesNotExist
      ("The referenced fallback method '" ++ name ++ "' does not exist")
  | .incompatibleSignature name expected =>
    error f.range .fallbackMethodInvalidSignature
      ("The referenced fallback method '" ++ name ++
        "' has an incompatible signature; expected " ++ format.code expected)

end Diagnostic
end FaultTolerance
