import TypeLedger.Json.Value

/-! The records of a trace. A trace is a list of objects with a source, the text of a type and,
unless it is the default one, a binding. -/
namespace TypeLedger.Trace

/-- A submission of a trace, at a place in its list. -/
structure Record where
  binding : Text
  source : Int
  typeText : Text
  index : Nat
  deriving DecidableEq, Repr

/-- What is wrong with a record. -/
inductive RecordFault
  | notAnObject
  | unexpectedKeys (keys : List Text)
  | badSource
  | badType
  | badBinding
  deriving DecidableEq, Repr

/-- What is wrong with the JSON value of a trace. -/
inductive ShapeFault
  | notAList
  | record (index : Nat) (fault : RecordFault)
  deriving DecidableEq, Repr

def defaultBinding : Text := "_"

def recordKeys : List Text := ["binding", "source", "type"]

/-- The keys that a record does not have, in order of code points. -/
def unexpectedKeys (fields : List (Text × Json.Value)) : List Text :=
  ((fields.map Prod.fst).filter (· ∉ recordKeys)).mergeSort Text.le

namespace Record

/-- The rules are judged in order: keys, source, type, binding. -/
def ofFields (index : Nat) (fields : List (Text × Json.Value)) : Except RecordFault Record :=
  if unexpectedKeys fields ≠ [] then .error (.unexpectedKeys (unexpectedKeys fields))
  else
    match Json.get? fields "source" with
    | some (.int source) =>
      match Json.get? fields "type" with
      | some (.string typeText) =>
        match Json.get? fields "binding" with
        | none => .ok ⟨defaultBinding, source, typeText, index⟩
        | some (.string (c :: cs)) => .ok ⟨c :: cs, source, typeText, index⟩
        | some _ => .error .badBinding
      | _ => .error .badType
    | _ => .error .badSource

def ofJson (index : Nat) : Json.Value → Except RecordFault Record
  | .object fields => ofFields index fields
  | _ => .error .notAnObject

end Record

/-- The records of items that start at `index`, or the first fault. -/
def recordsFrom (index : Nat) : List Json.Value → Except ShapeFault (List Record)
  | [] => .ok []
  | item :: rest =>
    match Record.ofJson index item with
    | .error fault => .error (.record index fault)
    | .ok record => (record :: ·) <$> recordsFrom (index + 1) rest

def recordsOfJson : Json.Value → Except ShapeFault (List Record)
  | .array items => recordsFrom 0 items
  | _ => .error .notAList

end TypeLedger.Trace
