import TypeLedger.Proofs.Accumulator.Rerun
import TypeLedger.Proofs.Except
import TypeLedger.Proofs.Trace.Bindings

/-! Passes over the same records. From the second pass on all passes report the same changes, so that
a trace that has converged stays so. The first pass leaves a ledger that no later one changes but in
the order of members of its combinations; ledgers that differ in nothing else give the same steps. -/
namespace TypeLedger.Trace

variable {l m k : Ledger} {records : List (Record × Ty)} {file : Option Text}

/-- The steps report the same, up to the order of members of the combination. -/
structure Step.Agrees (s t : Step) : Prop where
  record : s.record = t.record
  type : s.type = t.type
  changed : s.changed = t.changed
  combined : s.combined.same t.combined = true

theorem checkFixpoint_eq_nil_iff {steps : List Step} :
    checkFixpoint file steps = [] ↔ ∀ s ∈ steps, s.changed = false := by
  simp [checkFixpoint]

theorem unchanged_of_agrees {steps steps' : List Step} (h : List.Forall₂ Step.Agrees steps steps')
    (quiet : ∀ s ∈ steps, s.changed = false) : ∀ s ∈ steps', s.changed = false :=
  forall_of_forall₂ h fun s mem _ agrees => agrees.changed ▸ quiet s mem

namespace Ledger

/-- The ledgers have the same bindings, with accumulators that agree. -/
def Agrees (l m : Ledger) : Prop :=
  ∀ binding, Option.Rel Accumulator.Agrees (l.get? binding) (m.get? binding)

theorem Agrees.refl (l : Ledger) : l.Agrees l := by
  intro binding
  cases l.get? binding with
  | none => exact .none
  | some a => exact .some (.refl a)

theorem Agrees.trans (h : l.Agrees m) (h' : m.Agrees k) : l.Agrees k := by
  intro binding
  have first := h binding
  have second := h' binding
  revert first second
  generalize l.get? binding = a, m.get? binding = b, k.get? binding = c
  rintro (first | _) second
  · cases second with
    | some second => exact .some (first.trans second)
  · cases second
    exact .none

theorem Agrees.accumulator (h : l.Agrees m) (binding : Text) :
    (l.accumulator binding).Agrees (m.accumulator binding) := by
  have same := h binding
  unfold Ledger.accumulator
  generalize l.get? binding = a, m.get? binding = b at same
  cases same with
  | none => exact .refl _
  | some same => exact same

theorem Agrees.submit (h : l.Agrees m) (record : Record) (type : Ty) :
    (l.submit record type).1.Agrees (m.submit record type).1 ∧
      (l.submit record type).2.Agrees (m.submit record type).2 := by
  have outcome := (h.accumulator record.binding).submit record.source type
  constructor
  · intro binding
    rw [get?_submit, get?_submit]
    split
    next here => exact .some (here ▸ outcome.1)
    next => exact h binding
  · exact ⟨rfl, rfl, outcome.2, outcome.1.combined⟩

theorem Agrees.replay (h : l.Agrees m) (records : List (Record × Ty)) :
    (l.replay records).1.Agrees (m.replay records).1 ∧
      List.Forall₂ Step.Agrees (l.replay records).2 (m.replay records).2 := by
  induction records generalizing l m with
  | nil => exact ⟨h, .nil⟩
  | cons r rest ih =>
    obtain ⟨ledgers, step⟩ := h.submit r.1 r.2
    obtain ⟨last, steps⟩ := ih ledgers
    exact ⟨last, .cons step steps⟩

/-- A second pass leaves what the first one does. -/
theorem agrees_replay_self (records : List (Record × Ty)) :
    (empty.replay records).1.Agrees ((empty.replay records).1.replay records).1 := by
  intro binding
  rw [get?_replay (empty.replay records).1, accumulator_replay]
  by_cases none : submissions binding records = []
  · rw [if_pos none]
    exact Agrees.refl _ binding
  · rw [get?_replay, if_neg none, if_neg none]
    exact .some (Accumulator.agrees_run_self _)

/-- Of bindings that are there once, in the same order, what is found is what stands there. -/
theorem forall₂_of_lookup {R : Accumulator → Accumulator → Prop}
    {bs cs : List (Text × Accumulator)} (names : bs.map Prod.fst = cs.map Prod.fst)
    (unique : (bs.map Prod.fst).Nodup)
    (h : ∀ binding, Option.Rel R (bs.lookup binding) (cs.lookup binding)) :
    List.Forall₂ (fun b c => b.1 = c.1 ∧ R b.2 c.2) bs cs := by
  induction bs generalizing cs with
  | nil =>
    obtain rfl := List.map_eq_nil_iff.mp names.symm
    exact .nil
  | cons b bs ih =>
    obtain ⟨c, cs, rfl, named, others⟩ := List.map_eq_cons_iff.mp names.symm
    obtain ⟨new, unique⟩ := List.nodup_cons.mp unique
    simp only [lookup_cons_eq, named] at h
    refine .cons ⟨named.symm, by simpa using h b.1⟩ (ih others.symm unique fun binding => ?_)
    by_cases here : binding = b.1
    · have absent : bs.lookup binding = none := by
        rw [← Option.not_isSome_iff_eq_none]
        exact fun found => new (here ▸ (isSome_get?_iff (l := ⟨bs⟩)).mp found)
      have absent' : cs.lookup binding = none := by
        rw [← Option.not_isSome_iff_eq_none]
        exact fun found => new (others ▸ here ▸ (isSome_get?_iff (l := ⟨cs⟩)).mp found)
      rw [absent, absent']
      exact .none
    · simpa [here] using h binding

theorem Agrees.bindings (h : l.Agrees m) (names : l.names = m.names) (unique : l.names.Nodup) :
    List.Forall₂ (fun b c => b.1 = c.1 ∧ b.2.Agrees c.2) l.bindings m.bindings :=
  forall₂_of_lookup names unique h

/-- Where a pass leaves a ledger as it is, further passes do, with the same steps. -/
theorem Agrees.passes (h : l.Agrees m) (settled : l.Agrees (l.replay records).1) (n : Nat) :
    ∀ pass ∈ passes records n m,
      l.Agrees pass.1 ∧ List.Forall₂ Step.Agrees (l.replay records).2 pass.2 := by
  induction n generalizing m with
  | zero => exact List.forall_mem_nil _
  | succ n ih =>
    obtain ⟨ledgers, steps⟩ := h.replay records
    have next := settled.trans ledgers
    exact List.forall_mem_cons.mpr ⟨⟨next, steps⟩, ih next⟩

theorem combined_submit {record : Record} {type : Ty}
    (quiet : (l.submit record type).2.changed = false) (binding : Text) :
    ((l.submit record type).1.accumulator binding).combined = (l.accumulator binding).combined := by
  rw [accumulator_submit]
  split
  next here =>
    subst here
    exact Accumulator.combined_of_not_changed quiet
  next => rfl

/-- Without a change every combination stays as it is, with its members in their order. -/
theorem combined_replay (quiet : ∀ s ∈ (l.replay records).2, s.changed = false) :
    (∀ s ∈ (l.replay records).2, s.combined = (l.accumulator s.record.binding).combined) ∧
      ∀ binding,
        ((l.replay records).1.accumulator binding).combined = (l.accumulator binding).combined := by
  induction records generalizing l with
  | nil => exact ⟨List.forall_mem_nil _, fun _ => rfl⟩
  | cons r rest ih =>
    obtain ⟨first, others⟩ := List.forall_mem_cons.mp quiet
    obtain ⟨steps, last⟩ := ih others
    constructor
    · refine List.forall_mem_cons.mpr ⟨Accumulator.combined_of_not_changed first, fun s hs => ?_⟩
      exact (steps s hs).trans (combined_submit first _)
    · exact fun binding => (last binding).trans (combined_submit first binding)

/-- The combinations of a pass, all through it, are those of a ledger. -/
def Keeps (l : Ledger) (pass : Ledger × List Step) : Prop :=
  (∀ s ∈ pass.2, s.combined = (l.accumulator s.record.binding).combined) ∧
    ∀ binding, (pass.1.get? binding).map Accumulator.combined =
      (l.get? binding).map Accumulator.combined

theorem Agrees.map_combined (h : l.Agrees m) {binding : Text}
    (same : (m.accumulator binding).combined = (l.accumulator binding).combined) :
    (m.get? binding).map Accumulator.combined = (l.get? binding).map Accumulator.combined := by
  have here := h binding
  unfold Ledger.accumulator at same
  generalize l.get? binding = a, m.get? binding = b at here same
  cases here with
  | none => rfl
  | some => exact congrArg some same

theorem combined_passes (settled : l.Agrees (l.replay records).1)
    (quiet : ∀ s ∈ (l.replay records).2, s.changed = false) (h : l.Agrees m)
    (same : ∀ binding, (m.accumulator binding).combined = (l.accumulator binding).combined)
    (n : Nat) : ∀ pass ∈ passes records n m, l.Keeps pass := by
  induction n generalizing m with
  | zero => exact List.forall_mem_nil _
  | succ n ih =>
    obtain ⟨ledgers, agree⟩ := h.replay records
    obtain ⟨steps, last⟩ := combined_replay (unchanged_of_agrees agree quiet)
    have next := settled.trans ledgers
    have kept (binding : Text) := (last binding).trans (same binding)
    refine List.forall_mem_cons.mpr ⟨⟨?_, fun binding => next.map_combined (kept binding)⟩, ?_⟩
    · exact fun s hs => (steps s hs).trans (same s.record.binding)
    · exact ih next kept

/-- Records whose types the sources of their bindings have already change nothing. -/
theorem unchanged_of_holds
    (unique : ∀ binding, ((l.accumulator binding).sources.map Source.id).Nodup)
    (h : ∀ r ∈ records, (l.accumulator r.1.binding).Holds r.1.source r.2) :
    ∀ s ∈ (l.replay records).2, s.changed = false := by
  induction records generalizing l with
  | nil => exact List.forall_mem_nil _
  | cons r rest ih =>
    obtain ⟨first, others⟩ := List.forall_mem_cons.mp h
    have nothing := first.submit (unique r.1.binding)
    have stays (binding : Text) :
        (l.submit r.1 r.2).1.accumulator binding = l.accumulator binding := by
      rw [accumulator_submit]
      split
      next here => rw [here, nothing]
      next => rfl
    refine List.forall_mem_cons.mpr ⟨congrArg Accumulator.Outcome.changed nothing, ih ?_ ?_⟩
    · simpa only [stays] using unique
    · simpa only [stays] using others

theorem accumulator_replay_empty (records : List (Record × Ty)) (binding : Text) :
    (empty.replay records).1.accumulator binding =
      Accumulator.empty.run (submissions binding records) :=
  accumulator_replay empty records binding

/-- Records that agree on the type of each source of a binding change nothing when they are
replayed again. -/
theorem unchanged_again (alike : ∀ r ∈ records, ∀ q ∈ records, r.1.binding = q.1.binding →
      r.1.source = q.1.source → r.2.same q.2 = true) :
    ∀ s ∈ ((empty.replay records).1.replay records).2, s.changed = false := by
  apply unchanged_of_holds
  · intro binding
    rw [accumulator_replay_empty]
    exact (Accumulator.consistent_empty.run _).unique
  · intro r hr
    rw [accumulator_replay_empty]
    refine Accumulator.holds_run ?_ ⟨r.1.source, r.2⟩ (mem_submissions.mpr ⟨r, hr, rfl, rfl, rfl⟩)
    intro x hx y hy named
    obtain ⟨p, hp, here, source, type⟩ := mem_submissions.mp hx
    obtain ⟨q, hq, there, source', type'⟩ := mem_submissions.mp hy
    rw [← type, ← type']
    exact alike p hp q hq (here.trans there.symm) (source.trans (named.trans source'.symm))

end Ledger

/-- Every pass after the second one agrees with it step by step. If the second pass changes nothing,
no later one does, and the combinations stay what the first pass made them; and it changes nothing
if the types of each source of a binding are the same throughout. -/
theorem later_passes_agree (records : List (Record × Ty)) (n : Nat) :
    ∃ first second later,
      Ledger.passes records (n + 2) .empty = first :: second :: later ∧
      (∀ pass ∈ later, List.Forall₂ Step.Agrees second.2 pass.2) ∧
      (∀ file, checkFixpoint file second.2 = [] → ∀ pass ∈ second :: later,
        checkFixpoint file pass.2 = [] ∧ first.1.Keeps pass) ∧
      ((∀ r ∈ records, ∀ q ∈ records, r.1.binding = q.1.binding → r.1.source = q.1.source →
          r.2.same q.2 = true) → ∀ s ∈ second.2, s.changed = false) := by
  have settled := Ledger.agrees_replay_self records
  have passes := (Ledger.Agrees.refl _).passes settled
  refine ⟨Ledger.empty.replay records, (Ledger.empty.replay records).1.replay records, _, rfl, ?_,
    ?_, Ledger.unchanged_again⟩
  · intro pass mem
    exact (passes (n + 1) pass (List.mem_cons_of_mem _ mem)).2
  · intro file converged pass mem
    have quiet := checkFixpoint_eq_nil_iff.mp converged
    have kept := Ledger.combined_passes settled quiet (.refl _) (fun _ => rfl) (n + 1) pass mem
    refine ⟨checkFixpoint_eq_nil_iff.mpr ?_, kept⟩
    exact unchanged_of_agrees (passes (n + 1) pass mem).2 quiet

/-- Sources that are spelt in two ways have converged after the first pass. -/
theorem later_passes_agree_respelt :
    ∃ first second later,
      Ledger.passes [
        (⟨"x", 1, "int", 0⟩, .named "int" []), (⟨"y", 1, "None", 1⟩, .null),
        (⟨"x", 2, "int | None", 2⟩, .union [.named "int" [], .null]),
        (⟨"x", 2, "None | int", 3⟩, .union [.null, .named "int" []])] 3 .empty =
          first :: second :: later ∧
      (∀ pass ∈ later, List.Forall₂ Step.Agrees second.2 pass.2) ∧
      checkFixpoint none second.2 = [] ∧
      ∀ pass ∈ second :: later, checkFixpoint none pass.2 = [] ∧ first.1.Keeps pass := by
  obtain ⟨first, second, later, passes, agree, stable, quiet⟩ := later_passes_agree [
    (⟨"x", 1, "int", 0⟩, .named "int" []), (⟨"y", 1, "None", 1⟩, .null),
    (⟨"x", 2, "int | None", 2⟩, .union [.named "int" [], .null]),
    (⟨"x", 2, "None | int", 3⟩, .union [.null, .named "int" []])] 1
  have converged : checkFixpoint none second.2 = [] :=
    checkFixpoint_eq_nil_iff.mpr (quiet (by decide))
  exact ⟨first, second, later, passes, agree, converged, stable none converged⟩

theorem length_passes (records : List (Record × Ty)) (n : Nat) (l : Ledger) :
    (Ledger.passes records n l).length = n := by
  induction n generalizing l with
  | zero => rfl
  | succ n ih => exact congrArg (· + 1) (ih _)

/-- However many passes are made, they leave what the first one leaves: the same bindings in their
order, each with equal sources and a combination that is the same. -/
theorem passes_keep_final_state (records : List (Record × Ty)) (n : Nat) :
    ∃ first later, Ledger.passes records (n + 1) .empty = first :: later ∧ later.length = n ∧
      ∀ pass ∈ first :: later, pass.1.names = first.1.names ∧ first.1.Agrees pass.1 := by
  refine ⟨_, _, rfl, length_passes records n _, List.forall_mem_cons.mpr ⟨⟨rfl, .refl _⟩, ?_⟩⟩
  intro pass mem
  have names := Ledger.names_passes records (n + 1)
  have settled := Ledger.agrees_replay_self records
  constructor
  · rw [names pass (List.mem_cons_of_mem _ mem)]
    exact (names _ List.mem_cons_self).symm
  · exact ((Ledger.Agrees.refl _).passes settled n pass mem).1

/-- The spelling that a source ends with in the first pass is the one it keeps. -/
theorem passes_keep_final_state_respelt :
    let records : List (Record × Ty) := [
      (⟨"x", 1, "int | None", 0⟩, .union [.named "int" [], .null]), (⟨"y", 1, "Any", 1⟩, .any),
      (⟨"x", 1, "str", 2⟩, .named "str" []),
      (⟨"x", 1, "None | int", 3⟩, .union [.null, .named "int" []])]
    ∃ first third, Ledger.empty.replay records = first ∧
      (Ledger.passes records 3 .empty).getLast? = some third ∧
      (first.1.get? "x").map (·.types.map Ty.print) = some (["None | int"] : List Text) ∧
      third.1.names = first.1.names ∧ first.1.Agrees third.1 := by
  intro records
  obtain ⟨first, later, passes, length, keep⟩ := passes_keep_final_state records 2
  obtain ⟨rfl, _⟩ := List.cons.inj passes
  match later, length with
  | [second, third], _ =>
    refine ⟨_, third, rfl, by rw [passes]; rfl, by decide, ?_⟩
    exact keep third (by simp)

end TypeLedger.Trace
