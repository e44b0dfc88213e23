import TypeLedger.Proofs.Accumulator.NormalForm
import TypeLedger.Proofs.Expr.NormalForm
import TypeLedger.Proofs.Trace.Types

/-! The types of a replay are in normal form: those of its records when they are read, and the
combinations of its bindings after any records. -/
namespace TypeLedger.Trace

open TypeLedger.Expr (IsClassName)

def Ledger.Normal (className : Text → Prop) (l : Ledger) : Prop :=
  ∀ b ∈ l.bindings, b.2.Normal className

def Step.Normal (className : Text → Prop) (s : Step) : Prop :=
  s.type.Normal className ∧ s.combined.Normal className

variable {className : Text → Prop} {l : Ledger} {records : List Record}
  {resolved run : List (Record × Ty)} {file : Option Text}

theorem resolve_normal (h : resolve file records = .ok resolved) :
    ∀ r ∈ resolved, r.2.Normal IsClassName :=
  forall_of_resolve h fun _ _ _ => Expr.read_normal

theorem Step.All.normal {s : Step} (h : s.All (·.type.Normal className) (Ty.Normal className)) :
    s.Normal className :=
  ⟨h.source, h.combined⟩

namespace Ledger

theorem normal_iff_all :
    l.Normal className ↔ l.All (·.type.Normal className) (Ty.Normal className) := by
  simp only [Ledger.Normal, All, Accumulator.normal_iff_all]

theorem normal_empty : empty.Normal className := List.forall_mem_nil _

theorem Normal.replay (h : l.Normal className) (hr : ∀ r ∈ run, r.2.Normal className) :
    (l.replay run).1.Normal className ∧ ∀ s ∈ (l.replay run).2, s.Normal className := by
  obtain ⟨last, steps⟩ := (normal_iff_all.mp h).replay Accumulator.carried_normal hr
  exact ⟨normal_iff_all.mpr last, fun s mem => (steps s mem).normal⟩

theorem Normal.passes (h : l.Normal className) (hr : ∀ r ∈ run, r.2.Normal className) (n : Nat) :
    ∀ pass ∈ Ledger.passes run n l,
      pass.1.Normal className ∧ ∀ s ∈ pass.2, s.Normal className := by
  intro pass mem
  obtain ⟨last, steps⟩ := (normal_iff_all.mp h).passes Accumulator.carried_normal hr n pass mem
  exact ⟨normal_iff_all.mpr last, fun s mem => (steps s mem).normal⟩

end Ledger

/-- The types of texts are in normal form, and so are those of the bindings and steps of a replay,
after all passes and, with any records of the trace in any order, at every point of a pass. -/
theorem normal_of_reachable :
    (∀ source t, Expr.read source = .ok t → t.Normal IsClassName) ∧
    ∀ file records resolved, resolve file records = .ok resolved →
      (∀ n, ∀ pass ∈ Ledger.passes resolved n .empty,
        pass.1.Normal IsClassName ∧ ∀ s ∈ pass.2, s.Normal IsClassName) ∧
      ∀ run ⊆ resolved, (Ledger.empty.replay run).1.Normal IsClassName ∧
        ∀ s ∈ (Ledger.empty.replay run).2, s.Normal IsClassName := by
  constructor
  · intro source t h
    exact Expr.read_normal h
  · intro file records resolved h
    have types := resolve_normal h
    refine ⟨Ledger.normal_empty.passes types, ?_⟩
    intro run sub
    exact Ledger.normal_empty.replay fun r hr => types r (sub hr)

theorem normal_of_reachable_twice :
    (∃ t, Expr.read "Optional[Literal[1, \"a\"]] | list[Never]" = .ok t ∧
      t.print = "None | list[Never] | Literal[1] | Literal[\"a\"]" ∧ t.Normal IsClassName) ∧
    ∃ resolved,
      resolve none [⟨"x", 1, "Literal[2]", 0⟩, ⟨"x", 2, "int | None", 1⟩] = .ok resolved ∧
      resolved.map (·.2.print) = ["Literal[2]", "int | None"] ∧
      ((Ledger.empty.replay resolved).1.replay resolved).1.Normal IsClassName ∧
      ∀ s ∈ (Ledger.empty.replay (resolved.drop 1)).2, s.Normal IsClassName := by
  constructor
  · have found : (Expr.read "Optional[Literal[1, \"a\"]] | list[Never]").toOption.map Ty.print
        = some "None | list[Never] | Literal[1] | Literal[\"a\"]" := by decide +kernel
    obtain ⟨t, read, print⟩ := exists_of_toOption found
    exact ⟨t, read, print, normal_of_reachable.1 _ t read⟩
  · have found : (resolve none [⟨"x", 1, "Literal[2]", 0⟩, ⟨"x", 2, "int | None", 1⟩]).toOption.map
        (List.map (·.2.print)) = some (["Literal[2]", "int | None"] : List Text) := by decide +kernel
    obtain ⟨resolved, h, prints⟩ := exists_of_toOption found
    obtain ⟨passes, runs⟩ := normal_of_reachable.2 _ _ resolved h
    have second := passes 2 _ (List.mem_cons_of_mem _ List.mem_cons_self)
    exact ⟨resolved, h, prints, second.1, (runs _ (List.drop_subset 1 resolved)).2⟩

end TypeLedger.Trace
