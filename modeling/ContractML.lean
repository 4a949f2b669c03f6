import ContractML.Arithmetic
import ContractML.Command
import ContractML.Decimal.Layout
import ContractML.Decimal.Shortest
import ContractML.Eval.Apply
import ContractML.Eval.Basic
import ContractML.Eval.Expr
import ContractML.Expr.Basic
import ContractML.Expr.Document
import ContractML.Expr.Outline
import ContractML.Expr.Printer
import ContractML.Fault
import ContractML.Frames.Act
import ContractML.Frames.Eval
import ContractML.Json
import ContractML.Magnitude.Basic
import ContractML.Magnitude.Hypotenuse
import ContractML.Main
import ContractML.Monitor
import ContractML.Outline
import ContractML.Parser.Grammar
import ContractML.Parser.Precedence
import ContractML.Parser.Program
import ContractML.Parser.Stream
import ContractML.Position
import ContractML.Primitive.Basic
import ContractML.Primitive.Registration
import ContractML.Primitive.Run
import ContractML.Proofs.Acceptance
import ContractML.Proofs.Arguments
import ContractML.Proofs.Atomicity
import ContractML.Proofs.Batches
import ContractML.Proofs.BindingForms
import ContractML.Proofs.Blame
import ContractML.Proofs.CallDepth
import ContractML.Proofs.Closures
import ContractML.Proofs.Comparisons
import ContractML.Proofs.Conservation
import ContractML.Proofs.Consumption
import ContractML.Proofs.Coupling
import ContractML.Proofs.Discipline
import ContractML.Proofs.Faults
import ContractML.Proofs.FlatContracts
import ContractML.Proofs.FrameSimulation
import ContractML.Proofs.FramedRuns
import ContractML.Proofs.Fuel
import ContractML.Proofs.FunctionBindings
import ContractML.Proofs.Gaps
import ContractML.Proofs.Grouping
import ContractML.Proofs.Identity
import ContractML.Proofs.Integers
import ContractML.Proofs.Invariant
import ContractML.Proofs.Layers
import ContractML.Proofs.Layout
import ContractML.Proofs.Lexemes
import ContractML.Proofs.Locality
import ContractML.Proofs.Logic
import ContractML.Proofs.Lookahead
import ContractML.Proofs.MonitoredRuns
import ContractML.Proofs.Nesting
import ContractML.Proofs.Operators
import ContractML.Proofs.Parsed
import ContractML.Proofs.Placement
import ContractML.Proofs.Places
import ContractML.Proofs.Positions
import ContractML.Proofs.Progress
import ContractML.Proofs.Reachable
import ContractML.Proofs.Readback
import ContractML.Proofs.Recovery
import ContractML.Proofs.Regime
import ContractML.Proofs.Regions
import ContractML.Proofs.RelabelledRuns
import ContractML.Proofs.Relabelling
import ContractML.Proofs.Relocation
import ContractML.Proofs.Reports
import ContractML.Proofs.Respelling
import ContractML.Proofs.RoundTrip
import ContractML.Proofs.Rows
import ContractML.Proofs.Scoping
import ContractML.Proofs.Spelling
import ContractML.Proofs.Statements
import ContractML.Proofs.Streams
import ContractML.Proofs.StrictReading
import ContractML.Proofs.Termination
import ContractML.Proofs.Terminators
import ContractML.Proofs.TokenSpans
import ContractML.Proofs.Transparency
import ContractML.Proofs.Tree
import ContractML.Proofs.Wrapping
import ContractML.Proofs.Writing
import ContractML.ScopeStack
import ContractML.Session.Basic
import ContractML.Session.Framed
import ContractML.Session.Report
import ContractML.Span
import ContractML.Store
import ContractML.Table
import ContractML.Text.Blank
import ContractML.Text.Extender
import ContractML.Text.Ignorable
import ContractML.Text.Quoted
import ContractML.Text.Unprintable
import ContractML.Token.Basic
import ContractML.Token.Lexer
import ContractML.Ty
import ContractML.Value
import ContractML.Workspace
