import FaultTolerance.Model.Memory
import FaultTolerance.Model.Overlay
import FaultTolerance.Analyzer
import FaultTolerance.Wire.Metadata
import FaultTolerance.Wire.Settings
import FaultTolerance.Wire.Json.Reader
import FaultTolerance.Wire.Json.Printer
import FaultTolerance.Wire.Toml.Reader
import FaultTolerance.Model.Sources
import FaultTolerance.Main
import FaultTolerance.Java.Grammar.Rules
import FaultTolerance.Proofs.Catalog
import FaultTolerance.Proofs.Derivation.Offers
import FaultTolerance.Proofs.Derivation.Refinement
import FaultTolerance.Proofs.Derivation.KeyName
import FaultTolerance.Proofs.Derivation.Names
import FaultTolerance.Proofs.Derivation.Values
import FaultTolerance.Proofs.Derivation.Tail
import FaultTolerance.Proofs.Fallback.Findings
import FaultTolerance.Proofs.Project.Building
import FaultTolerance.Proofs.Project.FileScope
import FaultTolerance.Proofs.Project.Imports
import FaultTolerance.Proofs.Project.Growth
import FaultTolerance.Proofs.Analysis.Requests
import FaultTolerance.Proofs.Analysis.Unreadable
import FaultTolerance.Proofs.Analysis.Overrides
import FaultTolerance.Proofs.Text.Positions
import FaultTolerance.Proofs.Text.Order
import FaultTolerance.Proofs.Source.Lexing
import FaultTolerance.Proofs.Source.Trees
import FaultTolerance.Proofs.Source.Annotations
import FaultTolerance.Proofs.Source.Meaning
import FaultTolerance.Proofs.Grammar.Brackets
import FaultTolerance.Proofs.Project.Documents
import FaultTolerance.Proofs.Analysis.Ranges
import FaultTolerance.Proofs.Source.Forgetting.Trees
import FaultTolerance.Proofs.Source.Forgetting.Outline
import FaultTolerance.Proofs.Source.Forgetting.Meaning
import FaultTolerance.Proofs.Project.Alike
import FaultTolerance.Proofs.Source.Bodies.Balanced
import FaultTolerance.Proofs.Source.Bodies.Heads
import FaultTolerance.Proofs.Source.Bodies.Members
import FaultTolerance.Proofs.Source.Bodies.Declarations
import FaultTolerance.Proofs.Source.Bodies.Alike
import FaultTolerance.Proofs.Source.Bodies.Code
import FaultTolerance.Proofs.Analysis.Unranged
import FaultTolerance.Proofs.Analysis.Code
import FaultTolerance.Proofs.Analysis.Pointwise
import FaultTolerance.Proofs.Analysis.Fields
import FaultTolerance.Proofs.Derivation.Scopes
import FaultTolerance.Proofs.Source.TypeNames
import FaultTolerance.Proofs.Analysis.Foreign
import FaultTolerance.Proofs.Analysis.OwnAnnotations
import FaultTolerance.Proofs.Derivation.TypeOrder
import FaultTolerance.Proofs.Source.Preorder
import FaultTolerance.Proofs.Project.Declarations
import FaultTolerance.Proofs.Wire.Normal
import FaultTolerance.Proofs.Wire.RoundTrip
import FaultTolerance.Proofs.Literal.Decimals
import FaultTolerance.Proofs.CommandLine.Diagnostics
import FaultTolerance.Proofs.Source.Layout
import FaultTolerance.Proofs.Derivation.Wording
import FaultTolerance.Proofs.Analysis.Layout
import FaultTolerance.Proofs.Literal.Floating
import FaultTolerance.Proofs.Fallback.Compatibility
import FaultTolerance.Proofs.Fallback.Rendering
import FaultTolerance.Proofs.Analysis.Switches
import FaultTolerance.Proofs.Project.ArrayParameters
import FaultTolerance.Proofs.Project.TypeVariables
import FaultTolerance.Proofs.Project.ParameterComments
import FaultTolerance.Proofs.Text.Partition
import FaultTolerance.Proofs.Metadata.Calls
import FaultTolerance.Proofs.Source.Literals
import FaultTolerance.Proofs.Wire.Overrides
