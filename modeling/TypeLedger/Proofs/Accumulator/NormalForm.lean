import TypeLedger.Proofs.Accumulator.Types
import TypeLedger.Proofs.Ty.Normal

/-! Accumulators whose types are in normal form, which submissions of such types keep. -/
namespace TypeLedger.Accumulator

variable {className : Text → Prop} {a : Accumulator} {type : Ty}

/-- All types of the accumulator are in normal form. -/
structure Normal (className : Text → Prop) (a : Accumulator) : Prop where
  combined : a.combined.Normal className
  sources : ∀ s ∈ a.sources, s.type.Normal className

theorem normal_iff_all :
    a.Normal className ↔ a.All (·.type.Normal className) (Ty.Normal className) :=
  ⟨fun h => ⟨h.combined, h.sources⟩, fun h => ⟨h.combined, h.sources⟩⟩

theorem carried_normal : Carried (·.type.Normal className) (Ty.Normal className) where
  unknown := .unknown
  combine _ each := .combine (List.forall_mem_map.mpr each)

theorem normal_empty : empty.Normal className :=
  normal_iff_all.mpr (all_empty carried_normal)

theorem Normal.submit (h : a.Normal className) (id : Int) (ht : type.Normal className) :
    (a.submit id type).next.Normal className :=
  normal_iff_all.mpr ((normal_iff_all.mp h).submit carried_normal (s := ⟨id, type⟩) ht).next

theorem Normal.run {calls : List Source} (h : a.Normal className)
    (normal : ∀ call ∈ calls, call.type.Normal className) : (a.run calls).Normal className := by
  induction calls generalizing a with
  | nil => exact h
  | cons call calls ih =>
    obtain ⟨first, rest⟩ := List.forall_mem_cons.mp normal
    exact ih (h.submit call.id first) rest

end TypeLedger.Accumulator
