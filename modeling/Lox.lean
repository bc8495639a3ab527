import Lox.CommandLine.Arguments
import Lox.CommandLine.File
import Lox.CommandLine.Process
import Lox.CommandLine.Report
import Lox.Decimal
import Lox.Decimal.Notation
import Lox.Decimal.Shortest
import Lox.Diagnostic
import Lox.Frame
import Lox.Grammar.Cursor
import Lox.Grammar.Expression
import Lox.Grammar.Function
import Lox.Grammar.Program
import Lox.Grammar.Statement
import Lox.Json
import Lox.Machine
import Lox.Machine.Access
import Lox.Machine.Evaluation
import Lox.Machine.Operation
import Lox.Main
import Lox.Proofs.CommandLine.Agreement
import Lox.Proofs.CommandLine.Process
import Lox.Proofs.Decimal.Digits
import Lox.Proofs.Decimal.Double
import Lox.Proofs.Decimal.Overflow
import Lox.Proofs.Decimal.Printed
import Lox.Proofs.Decimal.Reading
import Lox.Proofs.Decimal.Rounding
import Lox.Proofs.Decimal.Shortest
import Lox.Proofs.Frames
import Lox.Proofs.Frames.Store
import Lox.Proofs.Grammar.Bounds
import Lox.Proofs.Grammar.Complete.Command
import Lox.Proofs.Grammar.Complete.Expression
import Lox.Proofs.Grammar.Complete.Operation
import Lox.Proofs.Grammar.Complete.Start
import Lox.Proofs.Grammar.Complete.Statement
import Lox.Proofs.Grammar.Complete.Whole
import Lox.Proofs.Grammar.Complete.Yields
import Lox.Proofs.Grammar.Continuation
import Lox.Proofs.Grammar.Derivation
import Lox.Proofs.Grammar.Exact
import Lox.Proofs.Grammar.Minting
import Lox.Proofs.Grammar.Nearest
import Lox.Proofs.Grammar.Parallel
import Lox.Proofs.Grammar.Reading
import Lox.Proofs.Grammar.Sound.Expression
import Lox.Proofs.Grammar.Sound.Program
import Lox.Proofs.Grammar.Sound.Spans
import Lox.Proofs.Grammar.Sound.Statement
import Lox.Proofs.Grammar.Sound.Whole
import Lox.Proofs.Loop.Access
import Lox.Proofs.Loop.Clauses
import Lox.Proofs.Loop.Direct
import Lox.Proofs.Loop.Evaluation
import Lox.Proofs.Loop.Follow
import Lox.Proofs.Loop.Framing
import Lox.Proofs.Loop.Inset
import Lox.Proofs.Loop.Meaning
import Lox.Proofs.Loop.Mirror
import Lox.Proofs.Loop.Reached
import Lox.Proofs.Loop.Scope
import Lox.Proofs.Loop.Written
import Lox.Proofs.Machine.Activation
import Lox.Proofs.Machine.Agree
import Lox.Proofs.Machine.Allowance
import Lox.Proofs.Machine.Apply
import Lox.Proofs.Machine.Call
import Lox.Proofs.Machine.Cells
import Lox.Proofs.Machine.Classes
import Lox.Proofs.Machine.Errors
import Lox.Proofs.Machine.Expression
import Lox.Proofs.Machine.Flow
import Lox.Proofs.Machine.Found
import Lox.Proofs.Machine.Held
import Lox.Proofs.Machine.History
import Lox.Proofs.Machine.Initializer
import Lox.Proofs.Machine.Kept
import Lox.Proofs.Machine.Like
import Lox.Proofs.Machine.Lineage
import Lox.Proofs.Machine.Moment
import Lox.Proofs.Machine.Names
import Lox.Proofs.Machine.Operation
import Lox.Proofs.Machine.Parallel
import Lox.Proofs.Machine.Program
import Lox.Proofs.Machine.Retained
import Lox.Proofs.Machine.Rounds
import Lox.Proofs.Machine.Rows
import Lox.Proofs.Machine.Safe
import Lox.Proofs.Machine.Statement
import Lox.Proofs.Machine.Steps
import Lox.Proofs.Machine.Stored
import Lox.Proofs.Machine.Super
import Lox.Proofs.Machine.Tasks
import Lox.Proofs.Machine.Traced
import Lox.Proofs.Machine.Twin
import Lox.Proofs.Machine.World
import Lox.Proofs.Parallel
import Lox.Proofs.Rename.Access
import Lox.Proofs.Rename.Alike
import Lox.Proofs.Rename.Evaluation
import Lox.Proofs.Rename.Locals
import Lox.Proofs.Rename.Resolve
import Lox.Proofs.Rename.Run
import Lox.Proofs.Rename.Scope
import Lox.Proofs.Rename.Steps
import Lox.Proofs.Rename.Tree
import Lox.Proofs.Rename.Value
import Lox.Proofs.Rename.Walk
import Lox.Proofs.Scope.Around
import Lox.Proofs.Scope.Binding
import Lox.Proofs.Scope.Declaration
import Lox.Proofs.Scope.Entries
import Lox.Proofs.Scope.Exact
import Lox.Proofs.Scope.Faults
import Lox.Proofs.Scope.Lint
import Lox.Proofs.Scope.Parallel
import Lox.Proofs.Scope.Place
import Lox.Proofs.Scope.Proper
import Lox.Proofs.Scope.Regular
import Lox.Proofs.Scope.Resolver
import Lox.Proofs.Scope.Reuse
import Lox.Proofs.Scope.Shape
import Lox.Proofs.Scope.Spot
import Lox.Proofs.Scope.Succession
import Lox.Proofs.Scope.Survey
import Lox.Proofs.Scope.Table
import Lox.Proofs.Scope.Usage
import Lox.Proofs.Scope.Walk
import Lox.Proofs.Session.Accepted
import Lox.Proofs.Session.Addresses
import Lox.Proofs.Session.Calculate
import Lox.Proofs.Session.Flow
import Lox.Proofs.Session.Identity
import Lox.Proofs.Session.Initializer
import Lox.Proofs.Session.Joined
import Lox.Proofs.Session.Lexical
import Lox.Proofs.Session.Loops
import Lox.Proofs.Session.Rejection
import Lox.Proofs.Session.Requests
import Lox.Proofs.Session.Runs
import Lox.Proofs.Session.Super
import Lox.Proofs.Session.TopLevel
import Lox.Proofs.Session.Twin
import Lox.Proofs.Source.Command
import Lox.Proofs.Source.Expression
import Lox.Proofs.Source.Number
import Lox.Proofs.Source.Printed
import Lox.Proofs.Source.RoundTrip
import Lox.Proofs.Source.Statement
import Lox.Proofs.Token.Bytes
import Lox.Proofs.Token.Cut
import Lox.Proofs.Token.Exact
import Lox.Proofs.Token.Lines
import Lox.Proofs.Token.Longest
import Lox.Proofs.Token.Numeral
import Lox.Proofs.Token.Scanner
import Lox.Proofs.Token.Seam
import Lox.Proofs.Token.Spread
import Lox.Proofs.Token.Word
import Lox.Proofs.Tree.Column
import Lox.Proofs.Tree.Forget
import Lox.Proofs.Tree.Formed
import Lox.Proofs.Tree.Fresh
import Lox.Proofs.Tree.Identity
import Lox.Proofs.Tree.Loose
import Lox.Proofs.Tree.Same
import Lox.Proofs.Tree.Tokens
import Lox.Proofs.Tree.Twin
import Lox.Scope
import Lox.Scope.Resolution
import Lox.Scope.Resolver
import Lox.Scope.Walk
import Lox.Session
import Lox.Text.CodeRange
import Lox.Text.Extending
import Lox.Text.Ignorable
import Lox.Text.Quoted
import Lox.Text.Unprintable
import Lox.Text.Utf8
import Lox.Token
import Lox.Token.Scan
import Lox.Token.Scanner
import Lox.Tree
import Lox.Tree.Document
import Lox.Tree.Source
import Lox.Tree.Symbolic
import Lox.Value
