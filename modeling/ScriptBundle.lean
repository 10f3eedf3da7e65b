import ScriptBundle.Text.Trivia
import ScriptBundle.Text.Slice
import ScriptBundle.Text.Quoted
import ScriptBundle.Literal.Number
import ScriptBundle.Literal.Value
import ScriptBundle.Literal.Token
import ScriptBundle.Literal.Grammar
import ScriptBundle.Literal.Cursor
import ScriptBundle.Literal.Lookahead
import ScriptBundle.Double
import ScriptBundle.BitSet.Basic
import ScriptBundle.Dependency.Reference
import ScriptBundle.Script.Manifest
import ScriptBundle.Timestamp
import ScriptBundle.Path
import ScriptBundle.Request
import ScriptBundle.ModuleSet
import ScriptBundle.Fault
import ScriptBundle.FileSystem.Access
import ScriptBundle.FileSystem.Memory
import ScriptBundle.FileSystem.Disk
import ScriptBundle.Survey
import ScriptBundle.Closure
import ScriptBundle.BitSet.Lemmas
import ScriptBundle.Weight.Marks
import ScriptBundle.Weight.Walk
import ScriptBundle.LoadOrder
import ScriptBundle.Bundle
import ScriptBundle.Site
import ScriptBundle.Settings.Basic
import ScriptBundle.CommandLine.Arguments
import ScriptBundle.CommandLine.Run
import ScriptBundle.Main
import ScriptBundle.Proofs.LoadOrder.Greedy
import ScriptBundle.Proofs.Module.Reach
import ScriptBundle.Proofs.LoadOrder.Dependencies
import ScriptBundle.Proofs.Weight.Walk
import ScriptBundle.Proofs.Weight.Evaluation
import ScriptBundle.Proofs.Weight.CompileCycle
import ScriptBundle.Proofs.Weight.Composition
import ScriptBundle.Proofs.Weight.RealCycles
import ScriptBundle.Proofs.Sorted.Lookup
import ScriptBundle.Proofs.Sorted.Stable
import ScriptBundle.Proofs.Survey.Modules
import ScriptBundle.Proofs.Request.Ids
import ScriptBundle.Proofs.Survey.Finds
import ScriptBundle.Proofs.Closure.Growth
import ScriptBundle.Proofs.Closure.Discovered
import ScriptBundle.Proofs.Closure.LeastClosure
import ScriptBundle.Proofs.Closure.Missing
import ScriptBundle.Proofs.Path.Components
import ScriptBundle.Proofs.FileSystem.Questions
import ScriptBundle.Proofs.Site.Confined
import ScriptBundle.Proofs.Bundle.SharedFiles
import ScriptBundle.Proofs.Literal.Scalars
import ScriptBundle.Proofs.Literal.RoundTrip
import ScriptBundle.Proofs.Sorted.Collected
import ScriptBundle.Proofs.Literal.Derivation
import ScriptBundle.Proofs.Text.Trivia
import ScriptBundle.Proofs.Literal.Locality
import ScriptBundle.Proofs.Literal.Front
import ScriptBundle.Proofs.Literal.Boundaries
import ScriptBundle.Proofs.Script.Findings
import ScriptBundle.Proofs.FileSystem.Keys
import ScriptBundle.Proofs.FileSystem.Written
import ScriptBundle.Proofs.Survey.Unaffected
import ScriptBundle.Proofs.Bundle.UnaskedFile
import ScriptBundle.Proofs.BitSet.Numerals
import ScriptBundle.Proofs.BitSet.Hexadecimal
import ScriptBundle.Proofs.Bundle.SameKeys
import ScriptBundle.Proofs.Survey.Outcome
import ScriptBundle.Proofs.Bundle.Refusals
import ScriptBundle.Proofs.Closure.Success
import ScriptBundle.Proofs.Survey.Options
import ScriptBundle.Proofs.Closure.Options
import ScriptBundle.Proofs.Bundle.Options
import ScriptBundle.Proofs.BitSet.Number
import ScriptBundle.Proofs.Request.Masks
import ScriptBundle.Proofs.Script.Accounting
import ScriptBundle.Proofs.Weight.Spread
import ScriptBundle.Proofs.Weight.ReportedNames
import ScriptBundle.Proofs.Script.Pieces
import ScriptBundle.Proofs.Literal.Spacing
import ScriptBundle.Proofs.Script.Places
import ScriptBundle.Proofs.Script.Gaps
import ScriptBundle.Proofs.Script.Comments
import ScriptBundle.Proofs.Text.Trimmed
import ScriptBundle.Proofs.Dependency.Spelling
import ScriptBundle.Proofs.Survey.Inventory
import ScriptBundle.Proofs.Closure.Passes
import ScriptBundle.Proofs.Weight.Stack
import ScriptBundle.Proofs.Script.Signature
import ScriptBundle.Proofs.Bundle.EmittedText
import ScriptBundle.Proofs.Bundle.NewestTime
import ScriptBundle.Proofs.Literal.Padding
import ScriptBundle.Proofs.FileSystem.Scan
import ScriptBundle.Proofs.FileSystem.Directories
import ScriptBundle.Proofs.Graph.Reader
import ScriptBundle.Proofs.Graph.NodeNames
import ScriptBundle.Proofs.Graph.WellFormed
import ScriptBundle.Weight.Basic
import ScriptBundle.Proofs.Weight.BitLayout
import ScriptBundle.Proofs.FileSystem.NormalForm
import ScriptBundle.Proofs.Literal.LineEndings
