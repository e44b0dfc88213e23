import TypeLedger.Trace.Loader
import TypeLedger.Proofs.Except

/-! Reading the types of the records of a trace: all of them have one, or there is no result. -/
namespace TypeLedger.Trace

variable {file : Option Text} {records : List Record} {resolved : List (Record × Ty)}

theorem resolve_eq_ok_iff : resolve file records = .ok resolved ↔
    List.Forall₂ (fun record r => r.1 = record ∧ Expr.read record.typeText = .ok r.2)
      records resolved := by
  induction records generalizing resolved with
  | nil => cases resolved <;> simp [resolve]
  | cons record rest ih =>
    rw [resolve, List.forall₂_cons_left_iff]
    constructor
    · intro h
      split at h
      next => cases h
      next => cases h
      next type read =>
        obtain ⟨others, hr, rfl⟩ := map_eq_ok_iff.mp h
        exact ⟨(record, type), others, ⟨rfl, read⟩, ih.mp hr, rfl⟩
    · rintro ⟨⟨_, type⟩, others, ⟨rfl, read⟩, hr, rfl⟩
      simp only [read, ih.mpr hr]
      rfl

theorem exists_resolve (file : Option Text)
    (readable : ∀ record ∈ records, ∃ type, Expr.read record.typeText = .ok type) :
    ∃ resolved, resolve file records = .ok resolved := by
  simp only [resolve_eq_ok_iff]
  apply exists_forall₂
  intro record mem
  obtain ⟨type, read⟩ := readable record mem
  exact ⟨(record, type), rfl, read⟩

/-- Why there are no types for the records: the text of one of them is not read. -/
inductive Unresolved (file : Option Text) (records : List Record) : Failure → Prop
  | oversized {r : Record} {n : Numeral.Oversized} : r ∈ records →
      Expr.read r.typeText = .error (.oversized n) →
      Unresolved file records (.abort (.oversized n))
  | faulty {r : Record} {f : Expr.Fault} : r ∈ records →
      Expr.read r.typeText = .error (.faulty f) →
      Unresolved file records (.error ⟨file, .typeText r.index r.typeText f⟩)

theorem unresolved_of_resolve {failure : Failure} (h : resolve file records = .error failure) :
    Unresolved file records failure := by
  induction records with
  | nil => cases h
  | cons record rest ih =>
    rw [resolve] at h
    split at h
    next n refused =>
      cases h
      exact .oversized List.mem_cons_self refused
    next f faulty =>
      cases h
      exact .faulty List.mem_cons_self faulty
    next =>
      cases ih (map_eq_error_iff.mp h) with
      | oversized mem refused => exact .oversized (List.mem_cons_of_mem _ mem) refused
      | faulty mem faulty => exact .faulty (List.mem_cons_of_mem _ mem) faulty

end TypeLedger.Trace
