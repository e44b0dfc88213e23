import TypeLedger.Proofs.Command.Report
import TypeLedger.Proofs.Expr.Strict
import TypeLedger.Proofs.Trace.Refusals
import TypeLedger.Proofs.Ty.Printing

/-! What can go wrong becomes a diagnostic, apart from paths and numerals that are refused. These are
refused before anything is replayed, and all that a replay shows can then be written. -/
namespace TypeLedger.Command

open Text (IsScalar)
open Trace (Refuses Step)

variable {o : Options} {contents : Except ReadFailure (List UInt8)} {words : List Text} {t : Text}
  {records : List Trace.Record} {resolved : List (Trace.Record × Ty)} {a : Trace.Abort}

/-- The outcome is a success or a failure, and its output can be encoded. -/
structure Outcome.Ordinary (x : Outcome) : Prop where
  status : x.status = 0 ∨ x.status = 1
  output : x.output.IsScalar

/-- Whatever is shown of the replay can be written: the sources and types of the bindings, and those of
the steps of both passes with their events. -/
structure Legible (o : Options) (resolved : List (Trace.Record × Ty)) : Prop where
  bindings : (o.replay resolved).ledger.All Source.Legible Expr.Legible
  steps : ∀ s ∈ firstSteps resolved ++ secondSteps resolved, s.All Source.Legible Expr.Legible

@[simp] theorem isScalar_line : (line t).IsScalar ↔ t.IsScalar := by
  simp [line]

theorem isScalar_format {s : Step} (binding : s.record.binding.IsScalar)
    (legible : s.All Source.Legible Expr.Legible) : s.format.IsScalar := by
  have type := legible.source.type.normal.isScalar_print
  have combined := legible.combined.normal.isScalar_print
  simp only [Step.format, Text.isScalar_concat, List.forall_mem_cons]
  refine ⟨binding, by simp, by simp, by simp, type, by simp, combined, ?_, List.forall_mem_nil _⟩
  split <;> simp

theorem ordinary_failure (d : Diagnostic) (json : Bool) : (failureOutcome d json).Ordinary := by
  cases json with
  | false => exact ⟨.inr rfl, Text.isScalar_nil⟩
  | true => exact ⟨.inr rfl, isScalar_line.mpr (Json.Value.isScalar_write _)⟩

theorem ordinary_replay (legible : Legible o resolved)
    (bindings : ∀ s ∈ firstSteps resolved, s.record.binding.IsScalar) (json : Bool) :
    ((o.replay resolved).outcome json).Ordinary := by
  have status : (o.replay resolved).status = 0 ∨ (o.replay resolved).status = 1 := by
    rw [status_replay]
    split <;> simp
  have steps : ∀ s ∈ firstSteps resolved, (line s.format).IsScalar := by
    intro s mem
    rw [isScalar_line]
    exact isScalar_format (bindings s mem) (legible.steps s (List.mem_append_left _ mem))
  cases json with
  | false => exact ⟨status, Text.isScalar_flatMap steps⟩
  | true => exact ⟨status, isScalar_line.mpr (Json.Value.isScalar_write _)⟩

theorem legible_of_resolve (loaded : Trace.load o.trace contents = .ok records)
    (resolves : Trace.resolve (some o.trace) records = .ok resolved)
    (scalar : ∀ r ∈ records, r.typeText.IsScalar) : Legible o resolved := by
  have legible := Trace.legible_of_load loaded resolves scalar
  exact ⟨legible_ledger legible, legible_steps legible⟩

theorem refuses_of_records (h : o.records contents = .error (.abort a)) :
    Refuses o.trace contents a := by
  rw [Options.records] at h
  split at h
  next failure refused =>
    cases h
    exact Trace.refuses_of_load refused
  next records loaded =>
    obtain ⟨n, rfl, r, mem, occurs⟩ := Trace.occursIn_of_resolve h
    exact .inType loaded mem occurs

end TypeLedger.Command
