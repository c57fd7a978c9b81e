import ListScript.Command
import ListScript.Eval.Basic
import ListScript.Eval.Loop
import ListScript.Eval.Machine
import ListScript.Eval.Place
import ListScript.Expr.Basic
import ListScript.Expr.Control
import ListScript.Expr.Operator
import ListScript.Expr.ParseError
import ListScript.Expr.Parser
import ListScript.Expr.Printer
import ListScript.Expr.Stream
import ListScript.Lists.Access
import ListScript.Lists.Position
import ListScript.Lists.Range
import ListScript.Lists.Transfer
import ListScript.Main
import ListScript.Number.Basic
import ListScript.Number.Bits
import ListScript.Number.Decimal
import ListScript.Number.Integral
import ListScript.Number.Text
import ListScript.Report
import ListScript.Scope.Basic
import ListScript.Scope.Bindings
import ListScript.Session
import ListScript.Source.Lines
import ListScript.Source.Position
import ListScript.Source.Span
import ListScript.Text.Blank
import ListScript.Text.CharClass
import ListScript.Text.Combining
import ListScript.Text.Inspect
import ListScript.Text.Quoted
import ListScript.Text.Unprintable
import ListScript.Token.Basic
import ListScript.Token.Error
import ListScript.Token.Escape
import ListScript.Token.Listing
import ListScript.Token.Scan
import ListScript.Value.Basic
import ListScript.Value.Equality
import ListScript.Value.Fault
import ListScript.Value.Heap
import ListScript.Value.Method
import ListScript.Value.Native
import ListScript.Value.Operator
import ListScript.Value.Path
import ListScript.Value.Tree
import ListScript.Proofs.Scope.Operations
import ListScript.Proofs.Scope.Sharing
import ListScript.Proofs.Scope.Assignment
import ListScript.Proofs.Scope.Constants
import ListScript.Proofs.Value.Equality
import ListScript.Proofs.Lists.Contents
import ListScript.Proofs.Eval.Congruence
import ListScript.Proofs.Eval.Evolution
import ListScript.Proofs.Eval.Isolation
import ListScript.Proofs.Eval.Ceilings
import ListScript.Proofs.Eval.Course
import ListScript.Proofs.Eval.Totality
import ListScript.Proofs.Eval.Signals
import ListScript.Proofs.Eval.Storage
import ListScript.Proofs.Eval.Markers
import ListScript.Proofs.Expr.Erasure
import ListScript.Proofs.Expr.Lockstep
import ListScript.Proofs.Expr.Layout
import ListScript.Proofs.Token.Joining
import ListScript.Proofs.Expr.Chain
import ListScript.Proofs.Expr.Precedence
import ListScript.Proofs.Expr.Consumption
import ListScript.Proofs.Expr.Junction
import ListScript.Proofs.Expr.Resumption
import ListScript.Proofs.Expr.Composition
import ListScript.Proofs.Number.Shortest
import ListScript.Proofs.Text.Spelling
import ListScript.Proofs.Number.Inspect
import ListScript.Proofs.Text.Datum
import ListScript.Proofs.Expr.Symbolic
import ListScript.Proofs.Expr.Readback
import ListScript.Proofs.Source.Boundary
import ListScript.Proofs.Source.LineTable
import ListScript.Proofs.Token.Tiling
import ListScript.Proofs.Token.LongestMatch
import ListScript.Proofs.Token.Respacing
import ListScript.Proofs.Expr.Nesting
import ListScript.Proofs.Eval.Origin
import ListScript.Proofs.Eval.Depth
import ListScript.Proofs.Expr.Reading
import ListScript.Proofs.Command.Refusal
import ListScript.Proofs.Eval.Walking
import ListScript.Proofs.Lists.Allocation
import ListScript.Proofs.Eval.Quiet
import ListScript.Proofs.Eval.Freshness
import ListScript.Proofs.Lists.Atomicity
import ListScript.Proofs.Lists.Writing
import ListScript.Proofs.Eval.Iteration
import ListScript.Proofs.Eval.Snapshot
import ListScript.Proofs.Number.Whole
import ListScript.Proofs.Lists.Agreement
import ListScript.Proofs.Lists.RoundTrip
import ListScript.Proofs.Lists.Conservation
import ListScript.Proofs.Lists.Rotation
import ListScript.Proofs.Lists.Ranges
import ListScript.Proofs.Value.Equivalence
import ListScript.Proofs.Scope.Frames
import ListScript.Proofs.Value.Rendering
import ListScript.Proofs.Expr.Literals
import ListScript.Proofs.Value.Replacement
import ListScript.Proofs.Expr.Progress
import ListScript.Proofs.Eval.Updating
import ListScript.Proofs.Lists.Renaming
import ListScript.Proofs.Scope.Renaming
import ListScript.Proofs.Eval.Renaming
import ListScript.Proofs.Eval.ReadOnly
import ListScript.Proofs.Token.Lookahead
