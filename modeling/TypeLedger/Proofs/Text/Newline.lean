import TypeLedger.Text.Newline
import Mathlib.Data.List.Basic

/-! Unifying the ends of lines leaves everything but carriage returns as it is. -/
namespace TypeLedger.Text

variable {c : CodePoint} {l t : Text}

/-- The code points are scalars and no control characters. -/
def IsGraphic (t : Text) : Prop := ∀ c ∈ t, ∃ k : Char, c = .scalar k ∧ 0x20 ≤ k.toNat

theorem isGraphic_ofString {s : String} (h : s.toList.all (0x20 ≤ ·.toNat) = true) :
    IsGraphic (ofString s) := by
  intro c mem
  obtain ⟨k, inside, rfl⟩ := List.mem_map.mp mem
  exact ⟨k, rfl, of_decide_eq_true (List.all_eq_true.mp h k inside)⟩

theorem unifyNewlines_other (h : c ≠ .scalar '\r') :
    unifyNewlines (c :: t) = c :: unifyNewlines t := by
  rw [unifyNewlines]
  · exact fun _ same => absurd same h
  · exact h

/-- A carriage return becomes a line feed, or is left out before one. -/
theorem unifyNewlines_return (t : Text) :
    unifyNewlines (.scalar '\r' :: t) = .scalar '\n' :: unifyNewlines t ∨
      unifyNewlines (.scalar '\r' :: t) = unifyNewlines t := by
  rcases t with _ | ⟨d, t⟩
  · exact .inl rfl
  · by_cases feed : d = .scalar '\n'
    · subst feed
      exact .inr (by rw [unifyNewlines, unifyNewlines_other (by decide)])
    · refine .inl ?_
      rw [unifyNewlines]
      exact fun _ same => absurd (List.cons.inj same).1 feed

theorem unifyNewlines_append (h : IsGraphic l) :
    unifyNewlines (l ++ t) = l ++ unifyNewlines t := by
  induction l with
  | nil => rfl
  | cons c l ih =>
    obtain ⟨⟨k, rfl, visible⟩, others⟩ := List.forall_mem_cons.mp h
    rw [List.cons_append, unifyNewlines_other, ih others, List.cons_append]
    rintro ⟨⟩
    revert visible
    decide

end TypeLedger.Text
