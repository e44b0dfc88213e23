import TypeLedger.Command.Options
import TypeLedger.Json.Writer
import TypeLedger.Trace.Loader
import TypeLedger.Trace.Replay

/-! What the command prints: the steps of a replay, or why there are none. -/
namespace TypeLedger.Command

/-- The exit status and the texts for the two outputs. -/
structure Outcome where
  status : Nat
  output : Text
  errors : Text
  deriving DecidableEq, Repr

def usage : Text := "usage: inferred-replay [-h] [--json] [--fixpoint-check] [-v] trace\n"

def help : Text :=
  usage ++ "
Replay type-source submissions through InferredType accumulators

positional arguments:
  trace             Path to a JSON trace file

options:
  -h, --help        show this help message and exit
  --json            Emit steps and diagnostics as JSON
  --fixpoint-check  Replay the trace a second time and fail if any binding
                    still changes
  -v, --verbose     Increase log verbosity (repeatable)
"

def UsageError.outcome (e : UsageError) : Outcome :=
  ⟨2, [], .concat [usage, "inferred-replay: error: ", e.message, "\n"]⟩

def line (text : Text) : Text := text ++ "\n"

/-- What is shown of a replay. -/
structure Result where
  steps : List Trace.Step
  ledger : Trace.Ledger
  diagnostics : List Diagnostic
  log : List Text

/-- Replays resolved records, a second time if the fixpoint is to be checked. -/
def Options.replay (o : Options) (resolved : List (Trace.Record × Ty)) : Result :=
  let first := Trace.Ledger.empty.replay resolved
  let second := if o.fixpointCheck then first.1.replay resolved else (first.1, [])
  let start : Text := .concat ["INFO inferred.replay: replaying ",
    Numeral.ofNat resolved.length, " record(s) from ", o.trace]
  { steps := first.2
    ledger := second.1
    diagnostics := Trace.checkFixpoint (some o.trace) second.2
    log :=
      (if 1 ≤ o.verbosity then [start] else []) ++
      (if 2 ≤ o.verbosity then
        ((first.2 ++ second.2).flatMap (·.events)).map Accumulator.Event.log
      else []) }

def diagnosticsField (ds : List Diagnostic) : Text × Json.Value :=
  ("diagnostics", .array (ds.map Diagnostic.toJson))

def statusField (status : Nat) : Text × Json.Value := ("exit_code", .int status)

/-- The document of a trace that could not be replayed. -/
def failureJson (d : Diagnostic) : Json.Value :=
  .object [statusField 1, diagnosticsField [d]]

namespace Result

/-- A replay fails if a diagnostic came of it. -/
def status (r : Result) : Nat := if r.diagnostics.isEmpty then 0 else 1

def toJson (r : Result) : Json.Value :=
  .object ([statusField r.status, ("steps", .array (r.steps.map Trace.Step.toJson)),
    ("bindings", r.ledger.toJson)] ++
    if r.diagnostics.isEmpty then [] else [diagnosticsField r.diagnostics])

def outcome (r : Result) (json : Bool) : Outcome :=
  if json then ⟨r.status, line r.toJson.write, r.log.flatMap line⟩
  else ⟨r.status, r.steps.flatMap (line ·.format),
    (r.log ++ r.diagnostics.map Diagnostic.format).flatMap line⟩

end Result

/-- The outcome of a trace that could not be replayed. -/
def failureOutcome (d : Diagnostic) (json : Bool) : Outcome :=
  if json then ⟨1, line (failureJson d).write, []⟩ else ⟨1, [], line d.format⟩

/-- The records of the trace with their types. -/
def Options.records (o : Options) (contents : Except ReadFailure (List UInt8)) :
    Except Trace.Failure (List (Trace.Record × Ty)) :=
  match Trace.load o.trace contents with
  | .error failure => .error failure
  | .ok records => Trace.resolve (some o.trace) records

/-- The outcome for options, given what reading the trace file brings. -/
def Options.report (o : Options) (contents : Except ReadFailure (List UInt8)) :
    Except Trace.Abort Outcome :=
  match o.records contents with
  | .error (.abort a) => .error a
  | .error (.error e) => .ok (failureOutcome e.diagnostic o.json)
  | .ok resolved => .ok ((o.replay resolved).outcome o.json)

/-- What the arguments settle by themselves: an outcome, or the options of a replay. -/
def plan (args : List Text) : Except Outcome Options :=
  match Request.ofArgs args with
  | .error e => .error e.outcome
  | .ok .help => .error ⟨0, help, []⟩
  | .ok (.replay o) => .ok o

/-- The outcome of the command, given how files are read. -/
def run (args : List Text) (readFile : Text → Except ReadFailure (List UInt8)) :
    Except Trace.Abort Outcome :=
  match plan args with
  | .error outcome => .ok outcome
  | .ok o => o.report (readFile o.trace)

end TypeLedger.Command
