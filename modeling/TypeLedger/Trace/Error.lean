import TypeLedger.Diagnostic
import TypeLedger.Expr.Fault
import TypeLedger.ReadFailure
import TypeLedger.Text.Utf8
import TypeLedger.Trace.Record

/-! Why a trace cannot be replayed. Every such error has a diagnostic; numerals with too many digits
and paths that cannot be asked for are no fault of the trace's form and are told apart. -/
namespace TypeLedger.Trace

inductive Error.Cause
  | unreadable (failure : ReadFailure)
  | notUtf8 (fault : Utf8.Fault)
  | notJson (cause : Json.Fault.Cause) (position : Position)
  | shape (fault : ShapeFault)
  | typeText (index : Nat) (source : Text) (fault : Expr.Fault)
  deriving DecidableEq, Repr

/-- An error of a trace, which may have a file. -/
structure Error where
  file : Option Text
  cause : Error.Cause
  deriving DecidableEq, Repr

/-- Why there is no result although nothing is wrong with the form of a trace. -/
inductive Abort
  | oversized (numeral : Numeral.Oversized)
  | nullInPath
  deriving DecidableEq, Repr

def Abort.message : Abort → Text
  | oversized numeral => numeral.message
  | nullInPath => "embedded null byte"

/-- Why a trace gives no result. -/
inductive Failure
  | error (e : Error)
  | abort (a : Abort)
  deriving DecidableEq, Repr

def RecordFault.message : RecordFault → Text
  | notAnObject => "expected an object"
  | unexpectedKeys keys => "unexpected key(s) " ++ .joinWith ", " keys
  | badSource => "'source' must be an integer"
  | badType => "'type' must be a string"
  | badBinding => "'binding' must be a non-empty string"

def recordMessage (index : Nat) (message : Text) : Text :=
  .concat ["record #", Numeral.ofNat index, ": ", message]

namespace Error

def message (e : Error) : Text :=
  match e.cause with
  | .unreadable failure => "cannot read trace: " ++ failure.message
  | .notUtf8 fault =>
    .concat ["trace is not valid UTF-8: ", fault.reason.message, " at byte ",
      Numeral.ofNat fault.offset]
  | .notJson cause _ => "invalid JSON: " ++ cause.message
  | .shape .notAList => "trace must be a JSON list of records"
  | .shape (.record index fault) => recordMessage index fault.message
  | .typeText index source fault => recordMessage index (fault.message source)

/-- The step that fails. -/
def phase (e : Error) : Text :=
  match e.cause with
  | .typeText .. => "type-expr"
  | _ => "trace"

def span (e : Error) : Span :=
  match e.cause with
  | .notJson _ position => .ofPosition e.file position
  | _ => .ofFile e.file

/-- The column of a fault in the text of a type. -/
def notes (e : Error) : List Text :=
  match e.cause with
  | .typeText _ source fault =>
    [.concat ["at column ", Numeral.ofNat (fault.position source).column, " of ",
      Quoted.quote source]]
  | _ => []

def diagnostic (e : Error) : Diagnostic :=
  { message := e.message, phase := some e.phase, span := e.span, notes := e.notes }

end Error
end TypeLedger.Trace
