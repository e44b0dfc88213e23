import TypeLedger.Text.Position
import TypeLedger.Text.Quoted
import TypeLedger.Text.DecimalDigit
import TypeLedger.Text.Newline
import TypeLedger.Text.Utf8
import TypeLedger.Json.Reader
import TypeLedger.Json.Writer
import TypeLedger.Ty.Combine
import TypeLedger.Ty.Printer
import TypeLedger.Ty.OfJson
import TypeLedger.Expr.Reader
import TypeLedger.Trace.Loader
import TypeLedger.Trace.Replay
import TypeLedger.FileTree
import TypeLedger.Main
import TypeLedger.Proofs.Json.Decoding
import TypeLedger.Proofs.Ty.Normal
import TypeLedger.Proofs.Ty.Congruence
import TypeLedger.Proofs.Ty.Interpretation
import TypeLedger.Proofs.Ty.Canonical
import TypeLedger.Proofs.Ty.Order
import TypeLedger.Proofs.Ty.Algebra
import TypeLedger.Proofs.Ty.Rules
import TypeLedger.Proofs.Ty.Rearrangement
import TypeLedger.Proofs.Expr.RoundTrip
import TypeLedger.Proofs.Expr.Induction
import TypeLedger.Proofs.Expr.Respelling
import TypeLedger.Proofs.Accumulator.LastWrite
import TypeLedger.Proofs.Accumulator.Confluence
import TypeLedger.Proofs.Accumulator.Rerun
import TypeLedger.Proofs.Accumulator.Widening
import TypeLedger.Proofs.Accumulator.Retraction
import TypeLedger.Proofs.Trace.NormalForm
import TypeLedger.Proofs.Trace.Bindings
import TypeLedger.Proofs.Trace.Passes
import TypeLedger.Proofs.Trace.Separation
import TypeLedger.Proofs.Trace.Respelling
import TypeLedger.Proofs.Command.Flags
import TypeLedger.Proofs.Command.Modes
import TypeLedger.Proofs.Command.Undisturbed
import TypeLedger.Proofs.Json.Numerals
import TypeLedger.Proofs.Expr.Oversized
import TypeLedger.Proofs.Expr.Strict
import TypeLedger.Proofs.Json.Writing
import TypeLedger.Proofs.Ty.Printing
import TypeLedger.Proofs.Trace.Legible
import TypeLedger.Proofs.Trace.Refusals
import TypeLedger.Proofs.Command.Failures
import TypeLedger.Proofs.Expr.Spelling
import TypeLedger.Proofs.Expr.FirstProblem
import TypeLedger.Proofs.Expr.Outcome
import TypeLedger.Proofs.Trace.RoundTrip
import TypeLedger.Proofs.Trace.Rules
import TypeLedger.Proofs.Trace.Diagnosis
import TypeLedger.Proofs.Expr.StringEnd
