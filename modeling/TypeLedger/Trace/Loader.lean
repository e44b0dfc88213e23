import TypeLedger.Expr.Reader
import TypeLedger.Text.Newline
import TypeLedger.Trace.Error

/-! From the bytes of a trace file to its records, and from records to types. -/
namespace TypeLedger.Trace

/-- The records of a JSON value. -/
def parse (file : Option Text) (data : Json.Value) : Except Error (List Record) :=
  match recordsOfJson data with
  | .ok records => .ok records
  | .error fault => .error ⟨file, .shape fault⟩

/-- The records of a JSON text. -/
def ofText (file : Option Text) (text : Text) : Except Failure (List Record) :=
  match Json.read (some Numeral.maxDigits) text with
  | .error (.oversized numeral) => .error (.abort (.oversized numeral))
  | .error (.malformed fault) =>
    .error (.error ⟨file, .notJson fault.cause (fault.position text)⟩)
  | .ok data =>
    match parse file data with
    | .ok records => .ok records
    | .error e => .error (.error e)

/-- The records of a file that holds UTF-8 text with any ends of lines. -/
def ofBytes (file : Option Text) (bytes : List UInt8) : Except Failure (List Record) :=
  match Utf8.decode bytes with
  | .error fault => .error (.error ⟨file, .notUtf8 fault⟩)
  | .ok text => ofText file text.unifyNewlines

/-- The records of the file at a path, given what reading it brings. A path with a null character
cannot be asked for. -/
def load (path : Text) (contents : Except ReadFailure (List UInt8)) :
    Except Failure (List Record) :=
  if .scalar '\x00' ∈ path then .error (.abort .nullInPath)
  else
    match contents with
    | .error failure => .error (.error ⟨some path, .unreadable failure⟩)
    | .ok bytes => ofBytes (some path) bytes

/-- Reads the types of all records before any of them is used. -/
def resolve (file : Option Text) : List Record → Except Failure (List (Record × Ty))
  | [] => .ok []
  | record :: rest =>
    match Expr.read record.typeText with
    | .error (.oversized numeral) => .error (.abort (.oversized numeral))
    | .error (.faulty fault) =>
      .error (.error ⟨file, .typeText record.index record.typeText fault⟩)
    | .ok type => ((record, type) :: ·) <$> resolve file rest

end TypeLedger.Trace
