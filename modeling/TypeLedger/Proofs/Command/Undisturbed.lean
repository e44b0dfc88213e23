import TypeLedger.Proofs.Command.Flags
import TypeLedger.Proofs.Command.Report

/-! The flags that ask for more leave the report as it is. A log changes nothing but the second output.
A check of the fixpoint replays the records again before anything is shown, and still the steps are
those of the first pass, and the bindings are what they are without it, up to the order of the members
of their combinations. -/
namespace TypeLedger.Command

open Trace (Ledger)

variable {o : Options} {contents : Except ReadFailure (List UInt8)} {words : List Text}
  {records : List Trace.Record} {resolved : List (Trace.Record × Ty)} {a b : Accumulator}

/-- The texts are read as types that are the same. -/
def ReadAlike (text text' : Text) : Prop :=
  ∃ type type', Expr.read text = .ok type ∧ Expr.read text' = .ok type' ∧ type.same type' = true

/-- Two fields for the same binding, with the same sources, and with texts that are read alike. -/
def FieldsAlike (field field' : Text × Json.Value) : Prop :=
  ∃ binding text text' sources,
    field = (binding, .object [("type", .string text), ("sources", sources)]) ∧
    field' = (binding, .object [("type", .string text'), ("sources", sources)]) ∧
    ReadAlike text text'

/-- Two objects for the same bindings in the same order. -/
def BindingsAlike (bindings bindings' : Json.Value) : Prop :=
  ∃ fields fields', bindings = .object fields ∧ bindings' = .object fields' ∧
    List.Forall₂ FieldsAlike fields fields'

/-- The documents with the fields have the same steps and bindings, or neither has any. -/
structure DocumentsAlike (fields fields' : List (Text × Json.Value)) : Prop where
  steps : Json.get? fields' "steps" = Json.get? fields "steps"
  bindings : Option.Rel BindingsAlike (Json.get? fields "bindings") (Json.get? fields' "bindings")

/-- What is reported in lines is equal, and what is reported as JSON is alike. -/
structure Undisturbed (json : Bool) (plain checked : Outcome) : Prop where
  lines : json = false → checked.output = plain.output
  document : json = true → ∃ fields fields', DocumentsAlike fields fields' ∧
    plain.output = line (Json.Value.object fields).write ∧
    checked.output = line (Json.Value.object fields').write

/-- A check leaves the bindings in their places, with accumulators that agree. -/
theorem bindings_of_check : List.Forall₂ (fun b c => b.1 = c.1 ∧ b.2.Agrees c.2)
    (o.replay resolved).ledger.bindings
    (Options.replay { o with fixpointCheck := true } resolved).ledger.bindings := by
  rw [ledger_replay, ledger_replay, if_pos rfl]
  have known : ∀ r ∈ resolved, r.1.binding ∈ (Ledger.empty.replay resolved).1.names :=
    fun _ => Ledger.mem_names_replay
  have unique : (Ledger.empty.replay resolved).1.names.Nodup :=
    Ledger.nodup_names_replay (l := .empty) .nil resolved
  split
  next => exact List.forall₂_same.mpr fun b _ => ⟨rfl, .refl _⟩
  next =>
    exact (Ledger.agrees_replay_self resolved).bindings (Ledger.names_replay_of_known known).symm
      unique

theorem fieldsAlike_of_agrees (h : a.Agrees b) (legible : Expr.Legible a.combined)
    (legible' : Expr.Legible b.combined) (binding : Text) :
    FieldsAlike (binding, Ledger.accumulatorJson a) (binding, Ledger.accumulatorJson b) := by
  refine ⟨binding, a.combined.print, b.combined.print, _, rfl, ?_, ?_⟩
  · rw [Ledger.accumulatorJson, h.sources]
  · exact ⟨_, _, legible.reread, legible'.reread, h.combined⟩

theorem bindingsAlike_of_check (legible : ∀ r ∈ resolved, (Trace.sourceOf r).Legible) :
    BindingsAlike (o.replay resolved).ledger.toJson
      (Options.replay { o with fixpointCheck := true } resolved).ledger.toJson := by
  refine ⟨_, _, rfl, rfl, ?_⟩
  rw [List.forall₂_map_left_iff, List.forall₂_map_right_iff]
  have all := legible_ledger (o := o) legible
  have all' := legible_ledger (o := { o with fixpointCheck := true }) legible
  have each := (List.forall₂_and_left _ _).mpr ⟨all, bindings_of_check⟩
  have each' := (List.forall₂_and_left _ _).mpr ⟨all', each.flip⟩
  refine each'.flip.imp ?_
  rintro ⟨name, a⟩ ⟨_, b⟩ ⟨legible', legible, rfl, agrees⟩
  exact fieldsAlike_of_agrees agrees legible.combined legible'.combined name

theorem undisturbed_failure (d : Diagnostic) (json : Bool) :
    Undisturbed json (failureOutcome d json) (failureOutcome d json) where
  lines _ := rfl
  document asked := by
    subst asked
    exact ⟨_, _, ⟨rfl, .none⟩, rfl, rfl⟩

theorem undisturbed_replay (legible : ∀ r ∈ resolved, (Trace.sourceOf r).Legible) (json : Bool) :
    Undisturbed json ((o.replay resolved).outcome json)
      ((Options.replay { o with fixpointCheck := true } resolved).outcome json) where
  lines human := by
    subst human
    rfl
  document asked := by
    subst asked
    exact ⟨(o.replay resolved).fields,
      (Options.replay { o with fixpointCheck := true } resolved).fields,
      ⟨rfl, .some (bindingsAlike_of_check legible)⟩, rfl, rfl⟩

/-- The exit status and what is reported, without the log and the diagnostics in lines. -/
def Outcome.reported (x : Outcome) : Nat × Text := (x.status, x.output)

theorem reported_of_verbosity (o : Options) (n : Nat) :
    (Options.report { o with verbosity := n } contents).map Outcome.reported =
      (o.report contents).map Outcome.reported := by
  have records : Options.records { o with verbosity := n } contents = o.records contents := rfl
  rw [Options.report, Options.report, records]
  rcases o.records contents with (_ | _) | resolved
  · rfl
  · rfl
  · cases json : o.json <;> rfl

/-- Where there is nothing to replay, nothing is checked. -/
theorem report_of_check {failure : Trace.Failure} (h : o.records contents = .error failure) :
    Options.report { o with fixpointCheck := true } contents = o.report contents := by
  have records : Options.records { o with fixpointCheck := true } contents = o.records contents :=
    rfl
  rw [Options.report, Options.report, records, h]
  cases failure <;> rfl

theorem plan_replicate_verbose (asked : plan words = .ok o) (n : Nat) :
    plan (List.replicate n ("-v" : Text) ++ words) = .ok { o with verbosity := o.verbosity + n } := by
  induction n with
  | zero => exact asked
  | succ n ih =>
    rw [List.replicate_succ, List.cons_append, plan_cons_spelling (f := .verbose) (by decide)
      (by decide), ih]
    rfl

/-- Asked for a log, once or more often, the command reports the same with the same status. Asked to
check the fixpoint it ends with no outcome where it did, and otherwise reports the same in lines and,
as JSON, the same steps and the bindings up to the order of members, where no text of a type has
halves of surrogate pairs. A flag in front of the arguments is one way to ask. -/
theorem flags_leave_report (asked : plan words = .ok o)
    (readFile : Text → Except ReadFailure (List UInt8))
    (scalar : ∀ records, Trace.load o.trace (readFile o.trace) = .ok records →
      ∀ r ∈ records, r.typeText.IsScalar) :
    (∀ n, plan (List.replicate n ("-v" : Text) ++ words) = .ok { o with verbosity := o.verbosity + n }) ∧
    (∀ n words', plan words' = .ok { o with verbosity := n } →
      (run words' readFile).map Outcome.reported = (run words readFile).map Outcome.reported) ∧
    plan ("--fixpoint-check" :: words) = .ok { o with fixpointCheck := true } ∧
    ∀ words', plan words' = .ok { o with fixpointCheck := true } →
      (∀ a, run words readFile = .error a ↔ run words' readFile = .error a) ∧
      ∀ plain, run words readFile = .ok plain →
        ∃ checked, run words' readFile = .ok checked ∧ Undisturbed o.json plain checked := by
  refine ⟨plan_replicate_verbose asked, ?_, ?_, ?_⟩
  · intro n words' asked'
    rw [run_eq asked, run_eq asked']
    exact reported_of_verbosity o n
  · rw [plan_cons_spelling (f := .fixpointCheck) (by decide) (by decide), asked]
    rfl
  · intro words' asked'
    rw [run_eq asked, run_eq asked']
    cases h : o.records (readFile o.trace) with
    | error failure =>
      rw [report_of_check h]
      refine ⟨fun _ => .rfl, fun plain ran => ⟨plain, ran, ?_⟩⟩
      cases failure with
      | abort a => cases (report_of_abort h).symm.trans ran
      | error e =>
        cases (report_of_error h).symm.trans ran
        exact undisturbed_failure _ _
    | ok resolved =>
      obtain ⟨records, loaded, resolves⟩ := records_eq_ok_iff.mp h
      have legible := Trace.legible_of_load loaded resolves (scalar records loaded)
      have reports : Options.report { o with fixpointCheck := true } (readFile o.trace) =
          .ok ((Options.replay { o with fixpointCheck := true } resolved).outcome o.json) :=
        report_of_records h
      rw [report_of_records h, reports]
      refine ⟨fun _ => ⟨nofun, nofun⟩, ?_⟩
      rintro _ ⟨⟩
      exact ⟨_, rfl, undisturbed_replay legible _⟩

/-- The second pass reaches a combination from other types than the first one does, and leaves its
members in another order. -/
theorem flags_leave_report_reordered :
    let words : List Text := ["t.json", "--json"]
    let words' : List Text := ["--fixpoint-check", "t.json", "--json"]
    let o : Options := ⟨"t.json", true, false, 0⟩
    let readFile : Text → Except ReadFailure (List UInt8) := fun _ => .ok (Utf8.encode
      "[\x7b\"source\":1,\"type\":\"bool\"\x7d,\x7b\"source\":1,\"type\":\"int\"\x7d,\x7b\"source\":1,\"type\":\"str\"\x7d,\x7b\"source\":2,\"type\":\"str|int\"\x7d]")
    plan words = .ok o ∧ plan words' = .ok { o with fixpointCheck := true } ∧
    (run ("-v" :: "-v" :: words) readFile).map Outcome.reported =
      (run words readFile).map Outcome.reported ∧
    ∃ plain checked, run words readFile = .ok plain ∧ run words' readFile = .ok checked ∧
      plain.status = 0 ∧ checked.status = 1 ∧ Undisturbed true plain checked := by
  intro words words' o readFile
  have asked : plan words = .ok o := by decide +kernel
  have asked' : plan words' = .ok ⟨"t.json", true, true, 0⟩ := by decide +kernel
  have loaded : Trace.load "t.json" (readFile "t.json") = .ok [⟨"_", 1, "bool", 0⟩,
      ⟨"_", 1, "int", 1⟩, ⟨"_", 1, "str", 2⟩, ⟨"_", 2, "str|int", 3⟩] := by decide +kernel
  have scalar : ∀ records, Trace.load o.trace (readFile o.trace) = .ok records →
      ∀ r ∈ records, r.typeText.IsScalar := by
    intro records found
    cases loaded.symm.trans found
    simp [Text.isScalar_ofString]
  have first : (run words readFile).toOption.map Outcome.status = some 0 := by
    rw [run_eq asked, Options.report, records_of_load (o := o) loaded]
    decide +kernel
  have second : (run words' readFile).toOption.map Outcome.status = some 1 := by
    have records := records_of_load (o := ⟨"t.json", true, true, 0⟩) loaded
    rw [run_eq asked', Options.report, records]
    decide +kernel
  obtain ⟨verbose, same, _, check⟩ := flags_leave_report asked readFile scalar
  obtain ⟨plain, ran, status⟩ := exists_of_toOption first
  obtain ⟨checked, ran', status'⟩ := exists_of_toOption second
  obtain ⟨_, again, undisturbed⟩ := (check words' asked').2 plain ran
  cases ran'.symm.trans again
  exact ⟨asked, asked', same 2 _ (verbose 2), plain, checked, ran, ran', status, status',
    undisturbed⟩

end TypeLedger.Command
