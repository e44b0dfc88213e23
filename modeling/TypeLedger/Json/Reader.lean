import TypeLedger.Json.Token
import TypeLedger.Text.Position

/-! Reading a JSON text: a machine takes its tokens one by one and keeps the open arrays and
objects on a stack. -/
namespace TypeLedger.Json

/-- An array or object that is still open, with what has been read of it. -/
inductive Frame
  /-- The items so far, the last one first. -/
  | items (read : List Value)
  /-- The fields so far and the key whose value comes next. -/
  | field (read : List (Text × Value)) (key : Text)

inductive State
  /-- A value has to follow. -/
  | value (stack : List Frame)
  /-- An array has been opened: its first item or its end has to follow. -/
  | firstItem (stack : List Frame)
  /-- An object has been opened: its first key or its end has to follow. -/
  | firstKey (stack : List Frame)
  /-- A further key has to follow the fields read. -/
  | key (read : List (Text × Value)) (stack : List Frame)
  | colon (read : List (Text × Value)) (key : Text) (stack : List Frame)
  /-- A value is complete. -/
  | complete (v : Value) (stack : List Frame)

/-- What a text lacks at a place. -/
inductive Fault.Cause
  | value
  | key
  | colon
  | comma
  | nothing
  /-- The text starts with a byte order mark. -/
  | mark
  | body (cause : BodyFault.Cause)
  deriving DecidableEq, Repr

structure Fault where
  cause : Fault.Cause
  offset : Nat
  deriving DecidableEq, Repr

/-- Why no value is read: the text is not JSON, or an integer has too many digits. -/
inductive ReadError
  | malformed (fault : Fault)
  | oversized (numeral : Numeral.Oversized)
  deriving DecidableEq, Repr

def Fault.Cause.message : Fault.Cause → Text
  | value => "Expecting value"
  | key => "Expecting property name enclosed in double quotes"
  | colon => "Expecting ':' delimiter"
  | comma => "Expecting ',' delimiter"
  | nothing => "Extra data"
  | mark => "Unexpected UTF-8 BOM (decode using utf-8-sig)"
  | body cause => cause.message

def Fault.position (text : Text) (f : Fault) : Position := .ofOffset text f.offset

/-- The message of a fault with its place in the text. -/
def Fault.describe (text : Text) (f : Fault) : Text :=
  .concat [f.cause.message, ": line ", Numeral.ofNat (f.position text).line,
    " column ", Numeral.ofNat (f.position text).column,
    " (char ", Numeral.ofNat f.offset, ")"]

namespace State

/-- What the state lacks when the next token does not fit. -/
def lacks : State → Fault.Cause
  | value _ | firstItem _ => .value
  | firstKey _ | key .. => .key
  | colon .. => .colon
  | complete _ [] => .nothing
  | complete _ (_ :: _) => .comma

/-- A string may follow. -/
def wantsString : State → Bool
  | value _ | firstItem _ | firstKey _ | key .. => true
  | colon .. | complete .. => false

/-- The state after a token where a value has to follow. -/
def takeValue (maxDigits : Option Nat) (stack : List Frame) (place : Nat) :
    Token → Except ReadError State
  | .leftBracket => .ok (firstItem stack)
  | .leftBrace => .ok (firstKey stack)
  | .string t => .ok (complete (.string t) stack)
  | .scalar v => .ok (complete v stack)
  | .integer negative digits =>
    match Numeral.read maxDigits digits with
    | .ok n => .ok (complete (.int (if negative then -n else n)) stack)
    | .error numeral => .error (.oversized numeral)
  | .rightBracket | .rightBrace | .colon | .comma => .error (.malformed ⟨.value, place⟩)

/-- The state after a token. -/
def step (maxDigits : Option Nat) (place : Nat) (tok : Token) : State → Except ReadError State
  | value stack => takeValue maxDigits stack place tok
  | firstItem stack =>
    match tok with
    | .rightBracket => .ok (complete (.array []) stack)
    | tok => takeValue maxDigits (.items [] :: stack) place tok
  | firstKey stack =>
    match tok with
    | .rightBrace => .ok (complete (.object []) stack)
    | .string k => .ok (colon [] k stack)
    | _ => .error (.malformed ⟨.key, place⟩)
  | key read stack =>
    match tok with
    | .string k => .ok (colon read k stack)
    | _ => .error (.malformed ⟨.key, place⟩)
  | colon read k stack =>
    match tok with
    | .colon => .ok (value (.field read k :: stack))
    | _ => .error (.malformed ⟨.colon, place⟩)
  | complete v (.items read :: stack) =>
    match tok with
    | .comma => .ok (value (.items (v :: read) :: stack))
    | .rightBracket => .ok (complete (.array (v :: read).reverse) stack)
    | _ => .error (.malformed ⟨.comma, place⟩)
  | complete v (.field read k :: stack) =>
    match tok with
    | .comma => .ok (key (put k v read) stack)
    | .rightBrace => .ok (complete (.object (put k v read)) stack)
    | _ => .error (.malformed ⟨.comma, place⟩)
  | complete _ [] => .error (.malformed ⟨.nothing, place⟩)

/-- The outcome where the tokens end. -/
def finish (stop : Located Stop) : State → Except ReadError Value
  | complete v [] =>
    match stop.item with
    | .finished => .ok v
    | _ => .error (.malformed ⟨.nothing, stop.offset⟩)
  | state =>
    match stop.item, state.wantsString with
    | .badString fault, true => .error (.malformed ⟨.body fault.cause, fault.offset⟩)
    | _, _ => .error (.malformed ⟨state.lacks, stop.offset⟩)

def run (maxDigits : Option Nat) (stop : Located Stop) (state : State) :
    List (Located Token) → Except ReadError Value
  | [] => state.finish stop
  | tok :: rest =>
    match state.step maxDigits tok.offset tok.item with
    | .error e => .error e
    | .ok next => next.run maxDigits stop rest

end State

/-- The value that a text writes. Integers may have as many digits as `maxDigits` allows. -/
def read (maxDigits : Option Nat) (text : Text) : Except ReadError Value :=
  if text.head? = some (.scalar '\uFEFF') then .error (.malformed ⟨.mark, 0⟩)
  else
    let scanned := tokens 0 text
    State.run maxDigits scanned.2 (.value []) scanned.1

/-- The text that a JSON text writes as a string. -/
def readString (text : Text) : Except Fault Text :=
  match read none text with
  | .ok (.string t) => .ok t
  | .error (.malformed fault) => .error fault
  | _ => .error ⟨.value, 0⟩

end TypeLedger.Json
