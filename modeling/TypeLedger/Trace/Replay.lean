import TypeLedger.Accumulator
import TypeLedger.Diagnostic
import TypeLedger.Trace.Record

/-! Replaying a trace: each binding has an accumulator of its own, and records are submitted to them
in order. A trace has converged when a further pass changes no combination. -/
namespace TypeLedger.Trace

/-- What the submission of a record brought about. -/
structure Step where
  record : Record
  type : Ty
  combined : Ty
  changed : Bool
  events : List Accumulator.Event

/-- The accumulators of the bindings, in order of first use. -/
structure Ledger where
  bindings : List (Text × Accumulator)

namespace Ledger

def empty : Ledger := ⟨[]⟩

def get? (l : Ledger) (binding : Text) : Option Accumulator := l.bindings.lookup binding

/-- Sets the accumulator of a binding, which goes last if it is new. -/
def put (binding : Text) (a : Accumulator) :
    List (Text × Accumulator) → List (Text × Accumulator)
  | [] => [(binding, a)]
  | (b, old) :: rest =>
    if b = binding then (b, a) :: rest else (b, old) :: put binding a rest

def submit (l : Ledger) (record : Record) (type : Ty) : Ledger × Step :=
  let outcome := ((l.get? record.binding).getD .empty).submit record.source type
  (⟨put record.binding outcome.next l.bindings⟩,
    ⟨record, type, outcome.next.combined, outcome.changed, outcome.events⟩)

/-- Submits records one by one. -/
def replay (l : Ledger) : List (Record × Ty) → Ledger × List Step
  | [] => (l, [])
  | (record, type) :: rest =>
    let first := l.submit record type
    let others := first.1.replay rest
    (others.1, first.2 :: others.2)

/-- Passes over the same records, one after the other, each with the ledger after it. -/
def passes (records : List (Record × Ty)) : Nat → Ledger → List (Ledger × List Step)
  | 0, _ => []
  | n + 1, l =>
    let pass := l.replay records
    pass :: passes records n pass.1

/-- The types and sources of an accumulator. -/
def accumulatorJson (a : Accumulator) : Json.Value :=
  .object [
    ("type", .string a.combined.print),
    ("sources", .array (a.sources.map fun s =>
      .object [("source", .int s.id), ("type", .string s.type.print)]))]

def toJson (l : Ledger) : Json.Value :=
  .object (l.bindings.map fun (binding, a) => (binding, accumulatorJson a))

end Ledger

namespace Step

def toJson (s : Step) : Json.Value :=
  .object [
    ("index", .int s.record.index),
    ("binding", .string s.record.binding),
    ("source", .int s.record.source),
    ("type", .string s.type.print),
    ("combined", .string s.combined.print),
    ("changed", .bool s.changed)]

def format (s : Step) : Text :=
  .concat [s.record.binding, " source=", Numeral.ofInt s.record.source, " ", s.type.print,
    " -> ", s.combined.print, if s.changed then " (changed)" else " (unchanged)"]

/-- The diagnostic of a step that changes its binding on the second pass. -/
def notConverged (file : Option Text) (s : Step) : Diagnostic :=
  { message := .concat ["binding '", s.record.binding, "' did not converge: record #",
      Numeral.ofNat s.record.index, " (source ", Numeral.ofInt s.record.source,
      ") changed it to ", s.combined.print, " on the second pass"]
    code := some "not-converged"
    phase := some "fixpoint"
    span := .ofFile file }

end Step

/-- A diagnostic for each step of the second pass that changes its binding. -/
def checkFixpoint (file : Option Text) (secondPass : List Step) : List Diagnostic :=
  (secondPass.filter Step.changed).map (Step.notConverged file)

end TypeLedger.Trace
