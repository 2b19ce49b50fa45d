import Stepwise.Binary64
import Stepwise.Binary64.Nearest
import Stepwise.Binary64.Shortest
import Stepwise.CommandLine.Invocation
import Stepwise.CommandLine.Options
import Stepwise.CommandLine.Session
import Stepwise.Decimal
import Stepwise.Document
import Stepwise.Execution
import Stepwise.Expr
import Stepwise.Expr.Evaluation
import Stepwise.Journal
import Stepwise.Json
import Stepwise.Json.Reading
import Stepwise.Json.Shown
import Stepwise.Json.Written
import Stepwise.Main
import Stepwise.Numeral
import Stepwise.Program
import Stepwise.Program.Assembly
import Stepwise.Program.Descent
import Stepwise.Program.Outline
import Stepwise.Proofs.Binary64.Nearest
import Stepwise.Proofs.Binary64.Order
import Stepwise.Proofs.Binary64.Plain
import Stepwise.Proofs.Binary64.Shortest
import Stepwise.Proofs.CommandLine.Agreement
import Stepwise.Proofs.CommandLine.Exits
import Stepwise.Proofs.CommandLine.Printed
import Stepwise.Proofs.Decimal
import Stepwise.Proofs.Descent.Expressions
import Stepwise.Proofs.Descent.Follows
import Stepwise.Proofs.Descent.Programs
import Stepwise.Proofs.Descent.Readings
import Stepwise.Proofs.Execution.Alike
import Stepwise.Proofs.Execution.Answers
import Stepwise.Proofs.Execution.Calls
import Stepwise.Proofs.Execution.Context
import Stepwise.Proofs.Execution.Course
import Stepwise.Proofs.Execution.Depth
import Stepwise.Proofs.Execution.Document
import Stepwise.Proofs.Execution.Follows
import Stepwise.Proofs.Execution.Independence
import Stepwise.Proofs.Execution.Journey
import Stepwise.Proofs.Execution.Order
import Stepwise.Proofs.Execution.Recording
import Stepwise.Proofs.Execution.Rerun
import Stepwise.Proofs.Execution.Route
import Stepwise.Proofs.Execution.Stopping
import Stepwise.Proofs.Execution.Traced
import Stepwise.Proofs.Execution.Visits
import Stepwise.Proofs.Execution.Written
import Stepwise.Proofs.Expr.Comparison
import Stepwise.Proofs.Expr.Outcome
import Stepwise.Proofs.Expr.Reads
import Stepwise.Proofs.Grammar.Acceptance
import Stepwise.Proofs.Grammar.Conditions
import Stepwise.Proofs.Grammar.Derivation
import Stepwise.Proofs.Grammar.Faults
import Stepwise.Proofs.Grammar.FirstFault
import Stepwise.Proofs.Grammar.Joined
import Stepwise.Proofs.Grammar.Lines
import Stepwise.Proofs.Grammar.Literals
import Stepwise.Proofs.Grammar.Numbers
import Stepwise.Proofs.Grammar.Parts
import Stepwise.Proofs.Grammar.Phases
import Stepwise.Proofs.Grammar.Rendered
import Stepwise.Proofs.Grammar.Supplied
import Stepwise.Proofs.Grammar.Unambiguous
import Stepwise.Proofs.Grammar.Walked
import Stepwise.Proofs.Json.Ascii
import Stepwise.Proofs.Json.Distinct
import Stepwise.Proofs.Json.Restored
import Stepwise.Proofs.Json.Strings
import Stepwise.Proofs.Registry.Shelf
import Stepwise.Proofs.Review.Duplicates
import Stepwise.Proofs.Review.Findings
import Stepwise.Proofs.Review.Unknown
import Stepwise.Proofs.Review.Verdict
import Stepwise.Proofs.Settings.Restored
import Stepwise.Proofs.Settings.Shape
import Stepwise.Proofs.Simulation
import Stepwise.Proofs.Table
import Stepwise.Proofs.Text.Decoding
import Stepwise.Proofs.Text.Quoted
import Stepwise.Proofs.Token.Joined
import Stepwise.Proofs.Token.Lexeme
import Stepwise.Proofs.Token.Lossless
import Stepwise.Proofs.Token.Number
import Stepwise.Proofs.Token.Relaid
import Stepwise.Proofs.Trace
import Stepwise.Registry
import Stepwise.Registry.Shelf
import Stepwise.Review
import Stepwise.Settings
import Stepwise.Settings.Loading
import Stepwise.Simulation
import Stepwise.Surroundings
import Stepwise.Table
import Stepwise.Tables
import Stepwise.Text.Blank
import Stepwise.Text.Decoding
import Stepwise.Text.Digit
import Stepwise.Text.Printable
import Stepwise.Text.Quoted
import Stepwise.Token
import Stepwise.Token.Lexer
import Stepwise.Trace
