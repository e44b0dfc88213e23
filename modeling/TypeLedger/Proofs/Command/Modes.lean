import TypeLedger.Proofs.Command.Flags
import TypeLedger.Proofs.Command.Report

/-! The command with and without JSON. Both report the same trace with the same status, and what the
one shows in a document the other one shows in lines. -/
namespace TypeLedger.Command

variable {o : Options} {contents : Except ReadFailure (List UInt8)} {words : List Text}
  {resolved : List (Trace.Record × Ty)} {e : Trace.Error} {human : Outcome}

/-- The outcome in lines and the one in JSON, whose document has the fields, show the same. Lines of
the log are all that JSON leaves on the second output. -/
structure TellAlike (o : Options) (contents : Except ReadFailure (List UInt8))
    (human machine : Outcome) (fields : List (Text × Json.Value)) : Prop where
  status : human.status = machine.status
  fails : o.Fails contents → machine.status = 1
  succeeds : ¬o.Fails contents → machine.status = 0
  document : machine.output = line (Json.Value.object fields).write
  exitCode : Json.get? fields "exit_code" = some (.int machine.status)
  failure : ∀ e, o.records contents = .error (.error e) →
    human.output = [] ∧ human.errors = line e.diagnostic.format ∧ machine.errors = [] ∧
    fields = [statusField 1, diagnosticsField [e.diagnostic]]
  replay : ∀ resolved, o.records contents = .ok resolved →
    Trace.load o.trace contents = .ok ((firstSteps resolved).map Trace.Step.record) ∧
    human.output = (firstSteps resolved).flatMap (fun s => line s.format) ∧
    human.errors = machine.errors ++ (o.divergences resolved).flatMap (fun d => line d.format) ∧
    Json.get? fields "steps" = some (.array ((firstSteps resolved).map Trace.Step.toJson)) ∧
    Json.get? fields "diagnostics" = if o.divergences resolved = [] then none
      else some (.array ((o.divergences resolved).map Diagnostic.toJson))

theorem tellAlike_failure (h : o.records contents = .error (.error e)) :
    TellAlike o contents (failureOutcome e.diagnostic false) (failureOutcome e.diagnostic true)
      [statusField 1, diagnosticsField [e.diagnostic]] where
  status := rfl
  fails _ := rfl
  succeeds no := absurd (.inl ⟨e, h⟩) no
  document := rfl
  exitCode := rfl
  failure e' h' := by
    cases h.symm.trans h'
    exact ⟨rfl, rfl, rfl, rfl⟩
  replay resolved h' := by cases h.symm.trans h'

theorem tellAlike_replay (h : o.records contents = .ok resolved) :
    TellAlike o contents ((o.replay resolved).outcome false) ((o.replay resolved).outcome true)
      (o.replay resolved).fields where
  status := rfl
  fails failed := by
    have some := (fails_iff_of_records h).mp failed
    exact status_replay.trans (if_neg some)
  succeeds fine := by
    have none := not_not.mp (mt (fails_iff_of_records h).mpr fine)
    exact status_replay.trans (if_pos none)
  document := rfl
  exitCode := rfl
  failure e h' := by cases h.symm.trans h'
  replay resolved' h' := by
    obtain rfl := Except.ok.inj (h.symm.trans h')
    obtain ⟨records, loaded, resolves⟩ := records_eq_ok_iff.mp h
    refine ⟨?_, rfl, ?_, rfl, ?_⟩
    · rw [record_firstSteps resolves]
      exact loaded
    · rw [← diagnostics_replay, ← List.flatMap_map]
      exact List.flatMap_append
    · rw [← diagnostics_replay, Result.fields]
      cases (o.replay resolved).diagnostics <;> rfl

/-- Asked for JSON or not, the command ends with the same status, or with no outcome for the same
reason, and what it shows is the same. A flag in front of the arguments is one way to ask. -/
theorem modes_tell_alike (asked : plan words = .ok o) (lines : o.json = false)
    (readFile : Text → Except ReadFailure (List UInt8)) :
    plan ("--json" :: words) = .ok { o with json := true } ∧
    ∀ words', plan words' = .ok { o with json := true } →
      (∀ a, run words readFile = .error a ↔ run words' readFile = .error a) ∧
      ∀ human, run words readFile = .ok human →
        ∃ machine fields, run words' readFile = .ok machine ∧
          TellAlike o (readFile o.trace) human machine fields := by
  constructor
  · rw [plan_cons_spelling (f := .json) (by decide) (by decide), asked]
    rfl
  intro words' asked'
  rw [run_eq asked, run_eq asked']
  cases h : o.records (readFile o.trace) with
  | error failure =>
    cases failure with
    | abort a =>
      have aborts : Options.report { o with json := true } (readFile o.trace) = .error a :=
        report_of_abort h
      rw [report_of_abort h, aborts]
      exact ⟨fun _ => .rfl, fun _ => nofun⟩
    | error e =>
      have reports : Options.report { o with json := true } (readFile o.trace) =
          .ok (failureOutcome e.diagnostic true) := report_of_error h
      rw [report_of_error h, reports, lines]
      refine ⟨fun _ => ⟨nofun, nofun⟩, ?_⟩
      rintro _ ⟨⟩
      exact ⟨_, _, rfl, tellAlike_failure h⟩
  | ok resolved =>
    have reports : Options.report { o with json := true } (readFile o.trace) =
        .ok ((o.replay resolved).outcome true) := report_of_records h
    rw [report_of_records h, reports, lines]
    refine ⟨fun _ => ⟨nofun, nofun⟩, ?_⟩
    rintro _ ⟨⟩
    exact ⟨_, _, rfl, tellAlike_replay h⟩

/-- A source that changes its type twice has not converged; the flag for JSON stands last. -/
theorem modes_tell_alike_diverging :
    let words : List Text := ["--fixpoint-check", "t.json"]
    let words' : List Text := ["--fixpoint-check", "t.json", "--json"]
    let o : Options := ⟨"t.json", false, true, 0⟩
    let bytes := Utf8.encode
      "[\x7b\"source\": 1, \"type\": \"int\"\x7d, \x7b\"source\": 1, \"type\": \"str\"\x7d]"
    plan words = .ok o ∧ o.json = false ∧ plan words' = .ok { o with json := true } ∧
    ∃ human machine fields, run words (fun _ => .ok bytes) = .ok human ∧ human.status = 1 ∧
      run words' (fun _ => .ok bytes) = .ok machine ∧
      TellAlike o (.ok bytes) human machine fields := by
  intro words words' o bytes
  have asked : plan words = .ok o := by decide +kernel
  have asked' : plan words' = .ok { o with json := true } := by decide +kernel
  have found : (run words (fun _ => .ok bytes)).toOption.map Outcome.status = some 1 := by
    decide +kernel
  obtain ⟨human, ran, status⟩ := exists_of_toOption found
  obtain ⟨_, alike⟩ := modes_tell_alike asked rfl fun _ => .ok bytes
  obtain ⟨machine, fields, ran', tell⟩ := (alike words' asked').2 human ran
  exact ⟨asked, rfl, asked', human, machine, fields, ran, status, ran', tell⟩

end TypeLedger.Command
