import TypeLedger.Text.Newline
import TypeLedger.Text.Numeral
import Mathlib.Data.List.Infix

/-! Where a numeral that is refused for its size stands in a text. It is a run of digits, and such runs
are those of the text before the ends of its lines were unified. -/
namespace TypeLedger

variable {s t u digits : Text}

namespace Text

theorem exists_suffix_of_unifyNewlines (h : s <:+ t.unifyNewlines) :
    ∃ u, u <:+ t ∧ s = unifyNewlines u := by
  fun_induction unifyNewlines t with
  | case1 => exact ⟨[], List.nil_suffix, List.suffix_nil.mp h⟩
  | case2 rest ih =>
    rcases List.suffix_cons_iff.mp h with whole | later
    · refine ⟨_, List.suffix_refl _, ?_⟩
      rw [whole, unifyNewlines]
    · obtain ⟨u, stands, same⟩ := ih later
      exact ⟨u, (stands.trans (List.suffix_cons _ _)).trans (List.suffix_cons _ _), same⟩
  | case3 rest alone ih | case4 _ rest alone _ ih =>
    rcases List.suffix_cons_iff.mp h with whole | later
    · refine ⟨_, List.suffix_refl _, ?_⟩
      rw [whole, unifyNewlines] <;> assumption
    · obtain ⟨u, stands, same⟩ := ih later
      exact ⟨u, stands.trans (List.suffix_cons _ _), same⟩

theorem prefix_of_unifyNewlines (h : digits <+: t.unifyNewlines)
    (each : ∀ d ∈ digits, Numeral.isDigit d = true) : digits <+: t := by
  fun_induction unifyNewlines t generalizing digits with
  | case1 => exact h
  | case2 rest | case3 rest =>
    rcases List.prefix_cons_iff.mp h with rfl | ⟨_, rfl, _⟩
    · exact List.nil_prefix
    · exact absurd (each _ List.mem_cons_self) (by decide)
  | case4 c rest _ _ ih =>
    rcases List.prefix_cons_iff.mp h with rfl | ⟨_, rfl, later⟩
    · exact List.nil_prefix
    · have others := (List.forall_mem_cons.mp each).2
      exact List.cons_prefix_cons.mpr ⟨rfl, ih later others⟩

/-- No run of digits comes about where two ends of lines become one. -/
theorem infix_of_unifyNewlines (h : digits <:+: t.unifyNewlines)
    (each : ∀ d ∈ digits, Numeral.isDigit d = true) : digits <:+: t := by
  obtain ⟨s, starts, ends⟩ := List.infix_iff_prefix_suffix.mp h
  obtain ⟨u, stands, rfl⟩ := exists_suffix_of_unifyNewlines ends
  exact (prefix_of_unifyNewlines starts each).isInfix.trans stands.isInfix

end Text

namespace Numeral

/-- A run of digits that is longer than a numeral may be stands in the text, and it is as long as the
numeral that is refused. -/
structure Oversized.OccursIn (n : Oversized) (t : Text) : Prop where
  limit : n.limit = maxDigits
  exceeds : maxDigits < n.digits
  run : ∃ digits, digits <:+: t ∧ digits.length = n.digits ∧ ∀ d ∈ digits, isDigit d = true

variable {n : Oversized}

theorem Oversized.OccursIn.mono (h : n.OccursIn t) (inside : t <:+: u) : n.OccursIn u where
  limit := h.limit
  exceeds := h.exceeds
  run := by
    obtain ⟨digits, stands, rest⟩ := h.run
    exact ⟨digits, stands.trans inside, rest⟩

theorem Oversized.OccursIn.of_unifyNewlines (h : n.OccursIn t.unifyNewlines) : n.OccursIn t where
  limit := h.limit
  exceeds := h.exceeds
  run := by
    obtain ⟨digits, stands, length, each⟩ := h.run
    exact ⟨digits, Text.infix_of_unifyNewlines stands each, length, each⟩

theorem occursIn_of_read (h : read (some maxDigits) digits = .error n)
    (each : ∀ d ∈ digits, isDigit d = true) : n.OccursIn digits := by
  rw [read] at h
  split at h
  next => cases h
  next long =>
    cases h
    exact ⟨rfl, Nat.lt_of_not_le long, digits, List.infix_refl _, rfl, each⟩

/-- A number that is read is written with as few digits as it is allowed to have. -/
theorem length_le_of_read {k : Nat} (h : read (some maxDigits) digits = .ok k) :
    digits.length ≤ maxDigits ∧ k = value digits := by
  rw [read] at h
  split at h
  next short =>
    cases h
    exact ⟨short, rfl⟩
  next => cases h

end Numeral
end TypeLedger
