import FaultTolerance.Analyzer
import FaultTolerance.Files.Tree
import FaultTolerance.Wire.Settings

/-! Why a run of the program comes to nothing. -/
namespace FaultTolerance.CommandLine
open Files Wire

inductive Failure where
  /-- The arguments make no request. -/
  | usage
  | unreadableSettings (path : String) (cause : FileError)
  | invalidSettings (fault : Fault)
  | unresolved (path : String) (cause : FileError)
  | unresolvedDependency (path : String) (cause : FileError)
  | unreadableSource (path : String) (cause : FileError)
  | analysis (cause : AnalysisError)
  deriving Repr

def Failure.message : Failure → String
  | .usage => "the arguments were not understood"
  | .unreadableSettings path cause =>
    "failed to read config file " ++ path ++ ": " ++ cause.message ++ ": " ++ cause.message
  | .invalidSettings .unreadable => "failed to parse toml config: the document is no TOML"
  | .invalidSettings (.misfit m) => Settings.rejection m
  | .unresolved path cause => "failed to resolve " ++ path ++ ": " ++ cause.message
  | .unresolvedDependency path cause =>
    "failed to resolve dependency " ++ path ++ ": " ++ cause.message
  | .unreadableSource path cause => "failed to read " ++ path ++ ": " ++ cause.message
  | .analysis cause => cause.message

end FaultTolerance.CommandLine
