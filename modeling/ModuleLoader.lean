import ModuleLoader.Builtin
import ModuleLoader.CommandLine.Flag
import ModuleLoader.CommandLine.Request
import ModuleLoader.CommandLine.Run
import ModuleLoader.CommandLine.Word
import ModuleLoader.Decimal.Binary64
import ModuleLoader.Decimal.Shortest
import ModuleLoader.Diagnostic
import ModuleLoader.Evaluation
import ModuleLoader.Fault
import ModuleLoader.FileSystem
import ModuleLoader.HostFunction
import ModuleLoader.Load.Native
import ModuleLoader.Load.Paths
import ModuleLoader.Load.Require
import ModuleLoader.Load.Script
import ModuleLoader.Machine
import ModuleLoader.Main
import ModuleLoader.Module
import ModuleLoader.Note
import ModuleLoader.Path.Canonical
import ModuleLoader.Path.Expansion
import ModuleLoader.Path.Policy
import ModuleLoader.Proofs.Acceptance
import ModuleLoader.Proofs.Accounting
import ModuleLoader.Proofs.Action
import ModuleLoader.Proofs.Alike
import ModuleLoader.Proofs.Beneath
import ModuleLoader.Proofs.Cancellation
import ModuleLoader.Proofs.Canonical
import ModuleLoader.Proofs.Choice
import ModuleLoader.Proofs.Completion
import ModuleLoader.Proofs.Conduct
import ModuleLoader.Proofs.Continuation
import ModuleLoader.Proofs.Course
import ModuleLoader.Proofs.Cycles
import ModuleLoader.Proofs.DepthFirst
import ModuleLoader.Proofs.Derivation
import ModuleLoader.Proofs.Diagnostic
import ModuleLoader.Proofs.Encoding
import ModuleLoader.Proofs.Evaluation
import ModuleLoader.Proofs.ExitStatus
import ModuleLoader.Proofs.Expandable
import ModuleLoader.Proofs.Expansion
import ModuleLoader.Proofs.History
import ModuleLoader.Proofs.Joining
import ModuleLoader.Proofs.Layout
import ModuleLoader.Proofs.Leaks
import ModuleLoader.Proofs.Lexing
import ModuleLoader.Proofs.LifeCycle
import ModuleLoader.Proofs.Loading
import ModuleLoader.Proofs.Locations
import ModuleLoader.Proofs.Lookup
import ModuleLoader.Proofs.ModuleTree
import ModuleLoader.Proofs.NormalForm
import ModuleLoader.Proofs.Orderly
import ModuleLoader.Proofs.Parting
import ModuleLoader.Proofs.Permission
import ModuleLoader.Proofs.Places
import ModuleLoader.Proofs.Pointing
import ModuleLoader.Proofs.Reading
import ModuleLoader.Proofs.Recall
import ModuleLoader.Proofs.Recasing
import ModuleLoader.Proofs.Recognition
import ModuleLoader.Proofs.Records
import ModuleLoader.Proofs.Reentry
import ModuleLoader.Proofs.Rejection
import ModuleLoader.Proofs.Rendering
import ModuleLoader.Proofs.Require
import ModuleLoader.Proofs.Rooting
import ModuleLoader.Proofs.Rules
import ModuleLoader.Proofs.Scanning
import ModuleLoader.Proofs.Search
import ModuleLoader.Proofs.SecondPass
import ModuleLoader.Proofs.Segments
import ModuleLoader.Proofs.Spellings
import ModuleLoader.Proofs.Starting
import ModuleLoader.Proofs.Sweep
import ModuleLoader.Proofs.Tame
import ModuleLoader.Proofs.Turns
import ModuleLoader.Report
import ModuleLoader.Script.Assembly
import ModuleLoader.Script.Lexeme
import ModuleLoader.Script.Literal
import ModuleLoader.Script.Parse
import ModuleLoader.Script.Position
import ModuleLoader.Script.Program
import ModuleLoader.Script.Token
import ModuleLoader.Script.Tokens
import ModuleLoader.Session
import ModuleLoader.Symbol
import ModuleLoader.System
import ModuleLoader.Text.CaseFold
import ModuleLoader.Text.CodeRange
import ModuleLoader.Text.Letter
import ModuleLoader.Text.Printable
import ModuleLoader.Text.Quoted
import ModuleLoader.Text.Split
import ModuleLoader.Text.Utf8
import ModuleLoader.Value
import ModuleLoader.Value.Equality
import ModuleLoader.Value.Quantity
