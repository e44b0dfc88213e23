import TypeLedger.Command.Report
import TypeLedger.Proofs.Trace.Legible
import TypeLedger.Proofs.Trace.Passes

/-! What the command reports of a trace, by what its records come to: no outcome, the diagnostic of
an error, or two passes over the records. -/
namespace TypeLedger.Command

open Trace (Ledger Step)

variable {o : Options} {contents : Except ReadFailure (List UInt8)} {words : List Text}
  {readFile : Text → Except ReadFailure (List UInt8)} {records : List Trace.Record}
  {resolved : List (Trace.Record × Ty)} {a : Trace.Abort} {e : Trace.Error}

theorem run_eq (asked : plan words = .ok o) : run words readFile = o.report (readFile o.trace) := by
  rw [run, asked]

theorem report_of_abort (h : o.records contents = .error (.abort a)) :
    o.report contents = .error a := by
  rw [Options.report, h]

theorem report_of_error (h : o.records contents = .error (.error e)) :
    o.report contents = .ok (failureOutcome e.diagnostic o.json) := by
  rw [Options.report, h]

theorem report_of_records (h : o.records contents = .ok resolved) :
    o.report contents = .ok ((o.replay resolved).outcome o.json) := by
  rw [Options.report, h]

theorem records_of_load (loaded : Trace.load o.trace contents = .ok records) :
    o.records contents = Trace.resolve (some o.trace) records := by
  rw [Options.records, loaded]

theorem records_eq_ok_iff : o.records contents = .ok resolved ↔
    ∃ records, Trace.load o.trace contents = .ok records ∧
      Trace.resolve (some o.trace) records = .ok resolved := by
  rw [Options.records]
  cases Trace.load o.trace contents <;> simp

/-- The fields of the document of a replay. -/
def Result.fields (r : Result) : List (Text × Json.Value) :=
  [statusField r.status, ("steps", .array (r.steps.map Trace.Step.toJson)),
    ("bindings", r.ledger.toJson)] ++
    if r.diagnostics.isEmpty then [] else [diagnosticsField r.diagnostics]

/-- The steps of the first pass over records. -/
def firstSteps (resolved : List (Trace.Record × Ty)) : List Step :=
  (Ledger.empty.replay resolved).2

/-- The steps of a second pass, with the ledger that the first one leaves. -/
def secondSteps (resolved : List (Trace.Record × Ty)) : List Step :=
  ((Ledger.empty.replay resolved).1.replay resolved).2

/-- The diagnostics of a replay: none unless the fixpoint is checked. -/
def Options.divergences (o : Options) (resolved : List (Trace.Record × Ty)) : List Diagnostic :=
  if o.fixpointCheck then Trace.checkFixpoint (some o.trace) (secondSteps resolved) else []

theorem diagnostics_replay : (o.replay resolved).diagnostics = o.divergences resolved := by
  rw [Options.replay, Options.divergences]
  split <;> rfl

/-- The trace cannot be replayed, or its fixpoint is checked and a step of the second pass changes its
binding. -/
def Options.Fails (o : Options) (contents : Except ReadFailure (List UInt8)) : Prop :=
  (∃ e, o.records contents = .error (.error e)) ∨
    ∃ resolved, o.records contents = .ok resolved ∧ o.fixpointCheck = true ∧
      ∃ s ∈ secondSteps resolved, s.changed = true

theorem divergences_eq_nil_iff : o.divergences resolved = [] ↔
    ¬(o.fixpointCheck = true ∧ ∃ s ∈ secondSteps resolved, s.changed = true) := by
  rw [Options.divergences]
  split
  next check => simp [check, Trace.checkFixpoint_eq_nil_iff]
  next quiet => simp [quiet]

theorem fails_iff_of_records (h : o.records contents = .ok resolved) :
    o.Fails contents ↔ o.divergences resolved ≠ [] := by
  rw [Ne, divergences_eq_nil_iff, not_not, Options.Fails, h]
  simp

theorem status_replay : (o.replay resolved).status =
    if o.divergences resolved = [] then 0 else 1 := by
  simp only [Result.status, diagnostics_replay, List.isEmpty_iff]

/-- A pass has a step for each record, in order. -/
theorem record_replay (l : Ledger) (resolved : List (Trace.Record × Ty)) :
    (l.replay resolved).2.map Step.record = resolved.map Prod.fst := by
  induction resolved generalizing l with
  | nil => rfl
  | cons r rest ih => exact congrArg (r.1 :: ·) (ih _)

theorem record_firstSteps (h : Trace.resolve (some o.trace) records = .ok resolved) :
    (firstSteps resolved).map Step.record = records := by
  rw [firstSteps, record_replay]
  have each := Trace.resolve_eq_ok_iff.mp h
  clear h
  induction each with
  | nil => rfl
  | cons first _ ih => rw [List.map_cons, first.1, ih]

/-- The bindings are those of a second pass if there is one. -/
theorem ledger_replay : (o.replay resolved).ledger =
    if o.fixpointCheck then ((Ledger.empty.replay resolved).1.replay resolved).1
    else (Ledger.empty.replay resolved).1 := by
  rw [Options.replay]
  split <;> rfl

theorem legible_ledger (legible : ∀ r ∈ resolved, (Trace.sourceOf r).Legible) :
    (o.replay resolved).ledger.All Source.Legible Expr.Legible := by
  have first := Ledger.all_empty.replay Trace.carried_legible legible
  have second := first.1.replay Trace.carried_legible legible
  rw [ledger_replay]
  split
  next => exact second.1
  next => exact first.1

theorem legible_steps (legible : ∀ r ∈ resolved, (Trace.sourceOf r).Legible) :
    ∀ s ∈ firstSteps resolved ++ secondSteps resolved, s.All Source.Legible Expr.Legible := by
  have first := Ledger.all_empty.replay Trace.carried_legible legible
  have second := first.1.replay Trace.carried_legible legible
  exact List.forall_mem_append.mpr ⟨first.2, second.2⟩

end TypeLedger.Command
