import TypeLedger.Proofs.Trace.Bindings

/-! Bindings do not interfere: what a replay shows of one binding, step by step and at the end, is the
replay of its own records. How the records of several bindings are interleaved leaves no trace. -/
namespace TypeLedger.Trace

variable {l m : Ledger} {binding : Text} {records : List (Record × Ty)}

/-- The records of a binding, in order. -/
def recordsOf (binding : Text) (records : List (Record × Ty)) : List (Record × Ty) :=
  records.filter (·.1.binding = binding)

/-- The steps of a binding, in order. -/
def stepsOf (binding : Text) (steps : List Step) : List Step :=
  steps.filter (·.record.binding = binding)

theorem recordsOf_cons (binding : Text) (r : Record × Ty) (records : List (Record × Ty)) :
    recordsOf binding (r :: records) =
      if r.1.binding = binding then r :: recordsOf binding records
      else recordsOf binding records := by
  by_cases here : r.1.binding = binding <;> simp [recordsOf, here]

theorem stepsOf_cons (binding : Text) (s : Step) (steps : List Step) :
    stepsOf binding (s :: steps) =
      if s.record.binding = binding then s :: stepsOf binding steps
      else stepsOf binding steps := by
  by_cases here : s.record.binding = binding <;> simp [stepsOf, here]

namespace Ledger

/-- Ledgers that have the same for a binding are not told apart by a submission for it. -/
theorem submit_congr {record : Record} (same : l.get? record.binding = m.get? record.binding)
    (type : Ty) :
    (l.submit record type).1.get? record.binding = (m.submit record type).1.get? record.binding ∧
      (l.submit record type).2 = (m.submit record type).2 := by
  constructor
  · rw [get?_submit, get?_submit, if_pos rfl, if_pos rfl, accumulator, accumulator, same]
  · simp only [submit, same]

/-- A submission for another binding leaves this one as it is. -/
theorem get?_submit_other {record : Record} (other : record.binding ≠ binding) (type : Ty) :
    (l.submit record type).1.get? binding = l.get? binding := by
  rw [get?_submit, if_neg other.symm]

theorem replay_recordsOf (same : l.get? binding = m.get? binding) (records : List (Record × Ty)) :
    (l.replay records).1.get? binding = (m.replay (recordsOf binding records)).1.get? binding ∧
      stepsOf binding (l.replay records).2 = (m.replay (recordsOf binding records)).2 := by
  induction records generalizing l m with
  | nil => exact ⟨same, rfl⟩
  | cons r rest ih =>
    have steps : (l.replay (r :: rest)).2 =
        (l.submit r.1 r.2).2 :: ((l.submit r.1 r.2).1.replay rest).2 := rfl
    have submitted : (l.submit r.1 r.2).2.record = r.1 := rfl
    rw [recordsOf_cons, steps, stepsOf_cons, submitted]
    by_cases here : r.1.binding = binding
    · subst here
      obtain ⟨next, step⟩ := submit_congr same r.2
      obtain ⟨last, others⟩ := ih next
      rw [if_pos rfl, if_pos rfl, step, others]
      exact ⟨last, rfl⟩
    · rw [if_neg here, if_neg here]
      exact ih ((get?_submit_other here r.2).trans same)

/-- What a pass shows of a binding: its accumulator at the end, and its steps. -/
def view (binding : Text) (pass : Ledger × List Step) : Option Accumulator × List Step :=
  (pass.1.get? binding, stepsOf binding pass.2)

theorem view_passes (same : l.get? binding = m.get? binding) (n : Nat) :
    (passes records n l).map (view binding) =
      (passes (recordsOf binding records) n m).map fun pass => (pass.1.get? binding, pass.2) := by
  induction n generalizing l m with
  | zero => rfl
  | succ n ih =>
    obtain ⟨last, steps⟩ := replay_recordsOf same records
    have first : view binding (l.replay records) =
        ((m.replay (recordsOf binding records)).1.get? binding,
          (m.replay (recordsOf binding records)).2) := Prod.ext last steps
    rw [passes, passes, List.map_cons, List.map_cons, first, ih last]

theorem toJson_eq (l : Ledger) : ∃ fields, l.toJson = .object fields ∧
    fields.map Prod.fst = l.names := by
  refine ⟨_, rfl, ?_⟩
  rw [List.map_map]
  rfl

end Ledger

/-- In any number of passes each binding has the steps and the accumulators that it has in passes
over its records alone, so that they do not depend on how the records are interleaved. The bindings
are those that records name, listed in order of first use. -/
theorem bindings_do_not_interfere (records : List (Record × Ty)) (n : Nat) :
    (∀ binding, (Ledger.passes records n .empty).map (Ledger.view binding) =
      (Ledger.passes (recordsOf binding records) n .empty).map fun pass =>
        (pass.1.get? binding, pass.2)) ∧
    (∀ others, (∀ binding, recordsOf binding others = recordsOf binding records) → ∀ binding,
      (Ledger.passes others n .empty).map (Ledger.view binding) =
        (Ledger.passes records n .empty).map (Ledger.view binding)) ∧
    ∀ pass ∈ Ledger.passes records n .empty,
      (∀ binding, (pass.1.get? binding).isSome ↔ ∃ r ∈ records, r.1.binding = binding) ∧
      ∃ fields, pass.1.toJson = .object fields ∧
        fields.map Prod.fst = (records.map (·.1.binding)).eraseDups := by
  refine ⟨fun binding => Ledger.view_passes rfl n, ?_, ?_⟩
  · intro others alike binding
    rw [Ledger.view_passes (m := .empty) rfl, Ledger.view_passes (m := .empty) rfl, alike]
  · intro pass mem
    have names := Ledger.names_passes records n pass mem
    constructor
    · intro binding
      rw [Ledger.isSome_get?_iff, names, List.mem_eraseDups, List.mem_map]
    · rw [← names]
      exact pass.1.toJson_eq

/-- Two bindings that use the same source, in two orders. -/
theorem bindings_do_not_interfere_interleaved :
    let int : Record × Ty := (⟨"x", 1, "int", 0⟩, .named "int" [])
    let null : Record × Ty := (⟨"y", 1, "None", 1⟩, .null)
    let str : Record × Ty := (⟨"x", 1, "str", 2⟩, .named "str" [])
    (∀ binding, recordsOf binding [null, int, str] = recordsOf binding [int, null, str]) ∧
    (Ledger.passes [null, int, str] 2 .empty).map (Ledger.view "x") =
      (Ledger.passes [int, null, str] 2 .empty).map (Ledger.view "x") ∧
    ((Ledger.empty.replay [null, int, str]).1.get? "y").isSome ∧
    ∃ fields, (Ledger.empty.replay [null, int, str]).1.toJson = .object fields ∧
      fields.map Prod.fst = (["y", "x"] : List Text) := by
  intro int null str
  have alike : ∀ binding,
      recordsOf binding [null, int, str] = recordsOf binding [int, null, str] := by
    intro binding
    by_cases isX : ("x" : Text) = binding
    · subst isX
      rfl
    by_cases isY : ("y" : Text) = binding
    · subst isY
      rfl
    · simp [recordsOf, int, null, str, isX, isY]
  have interleaved := (bindings_do_not_interfere [int, null, str] 2).2.1 _ alike "x"
  obtain ⟨held, names⟩ := (bindings_do_not_interfere [null, int, str] 1).2.2 _ List.mem_cons_self
  exact ⟨alike, interleaved, (held "y").mpr ⟨null, by simp, rfl⟩, names⟩

end TypeLedger.Trace
