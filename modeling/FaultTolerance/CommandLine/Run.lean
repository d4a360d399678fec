import FaultTolerance.CommandLine.Arguments
import FaultTolerance.CommandLine.Report

/-! A run of the program: from arguments and files to an exit code and a text. -/
namespace FaultTolerance.CommandLine
open Files

/-- What a run that succeeds leaves behind. -/
structure Outcome where
  exitCode : Nat
  output : String
  deriving DecidableEq, Repr

/-- The name of the file with a project's settings. -/
def settingsFileName : String := "nova-mp.toml"

def versionText : String := "nova-mp 0.1.0\n"

def helpText : String := unlines [
  "MicroProfile Fault Tolerance properties and diagnostics for Java projects",
  "",
  "Usage: nova-mp [OPTIONS] <COMMAND>",
  "",
  "Commands:",
  "  properties   List the configuration properties contributed by fault tolerance annotations",
  "  diagnostics  Validate fallback references for a project or a single file",
  "  help         Print this message or the help of the given subcommand(s)",
  "",
  "Options:",
  "      --config <CONFIG>  Configuration file",
  "  -h, --help             Print help",
  "  -V, --version          Print version"]

/-! ## Settings -/

def readSettings (fs : FileSystem) (path : String) : Except Failure Settings :=
  match fs.readText path with
  | .ok text => (Settings.parse text).mapError .invalidSettings
  | .error cause => .error (.unreadableSettings path cause)

/-- The path of the settings in a project's directory, or beside a single file. -/
def settingsPath (fs : FileSystem) (path : String) : String :=
  join (if fs.isDirectory path then path else parent path) settingsFileName

/-- The paths that an answer may depend on, those of the settings last. -/
def Request.paths (r : Request) : List String :=
  let dependencies := match r.task with
    | .properties _ dependencies => dependencies
    | .diagnostics _ => []
  dependencies ++ [r.path] ++ match r.settings with
    | some path => [path]
    | none => [join r.path settingsFileName, join (parent r.path) settingsFileName]

/-- The settings of a request: from the file it names, from the project, or the defaults. -/
def settingsFor (fs : FileSystem) (r : Request) : Except Failure Settings :=
  match r.settings with
  | some path => readSettings fs path
  | none =>
    let path := settingsPath fs r.path
    if fs.isFile path then readSettings fs path else .ok {}

/-! ## Answers -/

/-- The properties of the project at a path. -/
def propertiesOf (fs : FileSystem) (settings : Settings) (path : String) (scope : Option Scope)
    (dependencies : List String) : Except Failure ProjectInfo := do
  let project ← Project.read fs path dependencies
  let info ← (Analyzer.properties project.toModel (scope.getD settings.properties.scope)).mapError
    .analysis
  return { info with projectUri := some project.uri }

/-- The diagnostics of the project at a path. -/
def diagnosticsOf (fs : FileSystem) (settings : Settings) (path : String)
    (format : Option DocumentFormat) : Except Failure DiagnosticsReport := do
  let project ← Project.read fs path []
  let entries ← (Analyzer.diagnostics settings project.toModel project.uris format).mapError
    .analysis
  return ⟨project, entries⟩

def answer (fs : FileSystem) (r : Request) : Except Failure Outcome := do
  let settings ← settingsFor fs r
  match r.task with
  | .properties scope dependencies =>
    let info ← propertiesOf fs settings r.path scope dependencies
    return ⟨0, if r.json then jsonText info.toData else propertiesText info⟩
  | .diagnostics format =>
    let report ← diagnosticsOf fs settings r.path format
    return ⟨report.exitCode, if r.json then jsonText report.toData else report.text⟩

/-- Runs the program. -/
def run (fs : FileSystem) (arguments : List String) : Except Failure Outcome :=
  match Invocation.parse arguments with
  | none => .error .usage
  | some .version => .ok ⟨0, versionText⟩
  | some .help => .ok ⟨0, helpText⟩
  | some (.request r) => answer fs r

end FaultTolerance.CommandLine
