import FaultTolerance.Diagnostic
import FaultTolerance.Wire.Shape

/-! The written form of diagnostics: the library's own, and that of the language server
protocol. -/
namespace FaultTolerance
open Wire Text

namespace Text.Position

def shape : Shape := .record "Position" false [("line", .word, none), ("character", .word, none)]

def toData (p : Position) : Data :=
  .record [("line", .integer p.line), ("character", .integer p.character)]

/-- The position that data in normal form stands for. -/
def ofData (d : Data) : Position := ⟨d.numberAt "line", d.numberAt "character"⟩

def read (fmt : Format) (d : Data) : Except Fault Position := (shape.read fmt d).map ofData

end Text.Position

namespace Text.Range

def shape : Shape :=
  .record "Range" false [("start", Position.shape, none), ("end", Position.shape, none)]

def toData (r : Range) : Data :=
  .record [("start", r.start.toData), ("end", r.stop.toData)]

/-- The range that data in normal form stands for. -/
def ofData (d : Data) : Range :=
  ⟨.ofData (d.recordAt "start"), .ofData (d.recordAt "end")⟩

def read (fmt : Format) (d : Data) : Except Fault Range := (shape.read fmt d).map ofData

end Text.Range

namespace Severity

def text : Severity → String
  | .error => "error"
  | .warning => "warning"
  | .information => "information"
  | .hint => "hint"

def shape : Shape := .choice ["error", "warning", "information", "hint"]

def toData (s : Severity) : Data := .string s.text

/-- The severity that data in normal form stands for. -/
def ofData : Data → Severity
  | .string "warning" => .warning
  | .string "information" => .information
  | .string "hint" => .hint
  | _ => .error

def read (fmt : Format) (d : Data) : Except Fault Severity := (shape.read fmt d).map ofData

end Severity

namespace DiagnosticCode

def shape : Shape :=
  .choice [text .fallbackMethodDoesNotExist, text .fallbackMethodInvalidSignature]

def toData (c : DiagnosticCode) : Data := .string c.text

/-- The code that data in normal form stands for. -/
def ofData (d : Data) : DiagnosticCode :=
  match d with
  | .string s =>
    if s = text .fallbackMethodInvalidSignature then .fallbackMethodInvalidSignature
    else .fallbackMethodDoesNotExist
  | _ => .fallbackMethodDoesNotExist

end DiagnosticCode

namespace DocumentFormat

def text : DocumentFormat → String
  | .plainText => "plaintext"
  | .markdown => "markdown"

def shape : Shape := .choice [text .plainText, text .markdown]

def toData (f : DocumentFormat) : Data := .string f.text

/-- The format that data in normal form stands for. -/
def ofData : Data → DocumentFormat
  | .string "plaintext" => .plainText
  | _ => .markdown

def read (fmt : Format) (d : Data) : Except Fault DocumentFormat := (shape.read fmt d).map ofData

end DocumentFormat

namespace Diagnostic

def shape : Shape := .record "Diagnostic" false [
  ("range", Range.shape, none),
  ("message", .string, none),
  ("severity", Severity.shape, none),
  ("source", .string, none),
  ("code", DiagnosticCode.shape, none)]

def toData (d : Diagnostic) : Data := .record [
  ("range", d.range.toData),
  ("message", .string d.message),
  ("severity", d.severity.toData),
  ("source", .string d.source),
  ("code", d.code.toData)]

/-- The diagnostic that data in normal form stands for. -/
def ofData (d : Data) : Diagnostic where
  range := .ofData (d.recordAt "range")
  message := d.textAt "message"
  severity := .ofData (d.recordAt "severity")
  source := d.textAt "source"
  code := .ofData (d.recordAt "code")

def read (fmt : Format) (d : Data) : Except Fault Diagnostic := (shape.read fmt d).map ofData

/-- The diagnostic in the language server protocol, where a severity is a number. -/
def toProtocol (d : Diagnostic) : Data := .record [
  ("range", d.range.toData),
  ("severity", .integer d.severity.protocolNumber),
  ("code", d.code.toData),
  ("source", .string d.source),
  ("message", .string d.message)]

end Diagnostic
end FaultTolerance
