import TypeLedger.Trace.Replay
import TypeLedger.Proofs.Accumulator.Types
import TypeLedger.Proofs.Trace.Resolution

/-! A property of the sources that records submit, and one of combinations that such sources give: all
that the bindings hold and the steps show has them. -/
namespace TypeLedger.Trace

open Accumulator (Carried)

/-- The source that a resolved record submits. -/
def sourceOf (r : Record × Ty) : Source := ⟨r.1.source, r.2⟩

def Ledger.All (S : Source → Prop) (P : Ty → Prop) (l : Ledger) : Prop :=
  ∀ b ∈ l.bindings, b.2.All S P

/-- All that the step shows or tells of has the properties. -/
structure Step.All (S : Source → Prop) (P : Ty → Prop) (s : Step) : Prop where
  source : S (sourceOf (s.record, s.type))
  combined : P s.combined
  events : ∀ e ∈ s.events, e.All S P

variable {S : Source → Prop} {P : Ty → Prop} {l : Ledger} {records : List Record}
  {resolved run : List (Record × Ty)} {file : Option Text} {bindings : List (Text × Accumulator)}
  {b : Text × Accumulator} {binding : Text} {a : Accumulator} {r : Record × Ty}

theorem forall_of_resolve {Q : Record × Ty → Prop} (h : resolve file records = .ok resolved)
    (each : ∀ r ∈ records, ∀ t, Expr.read r.typeText = .ok t → Q (r, t)) : ∀ r ∈ resolved, Q r := by
  refine forall_of_forall₂ (resolve_eq_ok_iff.mp h) ?_
  rintro _ mem ⟨r, t⟩ ⟨rfl, read⟩
  exact each r mem t read

namespace Ledger

theorem mem_of_get? (h : l.get? binding = some a) : ∃ b ∈ l.bindings, b.2 = a := by
  obtain ⟨_, _, split, _⟩ := List.lookup_eq_some_iff.mp h
  exact ⟨(binding, a), split ▸ by simp, rfl⟩

theorem mem_put (h : b ∈ put binding a bindings) : b.2 = a ∨ b ∈ bindings := by
  induction bindings with
  | nil =>
    obtain rfl := List.mem_singleton.mp h
    exact .inl rfl
  | cons first rest ih =>
    rw [put] at h
    split at h
    · rcases List.mem_cons.mp h with rfl | h
      · exact .inl rfl
      · exact .inr (List.mem_cons_of_mem _ h)
    · rcases List.mem_cons.mp h with rfl | h
      · exact .inr List.mem_cons_self
      · exact (ih h).imp_right (List.mem_cons_of_mem _)

theorem all_empty : empty.All S P := List.forall_mem_nil _

theorem All.submit (h : l.All S P) (carried : Carried S P) (hr : S (sourceOf r)) :
    (l.submit r.1 r.2).1.All S P ∧ (l.submit r.1 r.2).2.All S P := by
  have old : ((l.get? r.1.binding).getD .empty).All S P := by
    cases found : l.get? r.1.binding with
    | none => exact Accumulator.all_empty carried
    | some a =>
      obtain ⟨b, mem, rfl⟩ := mem_of_get? found
      exact h b mem
  have new := old.submit carried hr
  refine ⟨fun b mem => ?_, hr, new.next.combined, new.events⟩
  rcases mem_put mem with same | mem
  · rw [same]
    exact new.next
  · exact h b mem

theorem All.replay (h : l.All S P) (carried : Carried S P) (hr : ∀ r ∈ run, S (sourceOf r)) :
    (l.replay run).1.All S P ∧ ∀ s ∈ (l.replay run).2, s.All S P := by
  induction run generalizing l with
  | nil => exact ⟨h, List.forall_mem_nil _⟩
  | cons r rest ih =>
    obtain ⟨first, others⟩ := List.forall_mem_cons.mp hr
    obtain ⟨next, step⟩ := h.submit carried first
    obtain ⟨last, steps⟩ := ih next others
    exact ⟨last, List.forall_mem_cons.mpr ⟨step, steps⟩⟩

theorem All.passes (h : l.All S P) (carried : Carried S P) (hr : ∀ r ∈ run, S (sourceOf r))
    (n : Nat) :
    ∀ pass ∈ Ledger.passes run n l, pass.1.All S P ∧ ∀ s ∈ pass.2, s.All S P := by
  induction n generalizing l with
  | zero => exact List.forall_mem_nil _
  | succ n ih =>
    have first := h.replay carried hr
    exact List.forall_mem_cons.mpr ⟨first, ih first.1⟩

end Ledger
end TypeLedger.Trace
