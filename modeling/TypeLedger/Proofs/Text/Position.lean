import TypeLedger.Text.Position
import Mathlib.Data.List.TakeWhile

/-! Positions told apart from counting: a text is its lines with line feeds between them, and a place
stands after some whole lines and a part of one more. -/
namespace TypeLedger.Position

/-- The position of what follows a text. -/
inductive After : Text → Position → Prop
  | firstLine {line : Text} : .scalar '\n' ∉ line → After line ⟨1, line.length + 1⟩
  | laterLine {lines line : Text} : .scalar '\n' ∉ line →
      After (lines ++ .scalar '\n' :: line) ⟨lines.count (.scalar '\n') + 2, line.length + 1⟩

variable {text lines line : Text} {offset : Nat}

theorem no_newline_reverse (h : .scalar '\n' ∉ line) :
    ∀ c ∈ line.reverse, decide (c ≠ .scalar '\n') = true := by
  intro c mem
  rw [decide_eq_true_eq]
  rintro rfl
  exact h (List.mem_reverse.mp mem)

theorem ofOffset_of_line (h : .scalar '\n' ∉ line) (taken : text.take offset = line) :
    ofOffset text offset = ⟨1, line.length + 1⟩ := by
  rw [ofOffset, taken, List.takeWhile_eq_self_iff.mpr (no_newline_reverse h),
    List.count_eq_zero_of_not_mem h, List.length_reverse]

theorem ofOffset_of_lines (h : .scalar '\n' ∉ line)
    (taken : text.take offset = lines ++ .scalar '\n' :: line) :
    ofOffset text offset = ⟨lines.count (.scalar '\n') + 2, line.length + 1⟩ := by
  have last : (lines ++ .scalar '\n' :: line).reverse.takeWhile (· ≠ .scalar '\n')
      = line.reverse := by
    rw [List.reverse_append, List.reverse_cons, List.append_assoc,
      List.takeWhile_append_of_pos (no_newline_reverse h)]
    simp
  rw [ofOffset, taken, last, List.count_append, List.count_cons_self,
    List.count_eq_zero_of_not_mem h, List.length_reverse]

theorem after_ofOffset (text : Text) (offset : Nat) :
    After (text.take offset) (ofOffset text offset) := by
  by_cases newline : .scalar '\n' ∈ text.take offset
  · -- The last line feed is the first one of the reversed text.
    obtain ⟨after, before, split, free⟩ :=
      List.eq_append_cons_of_mem (List.mem_reverse.mpr newline)
    have free : .scalar '\n' ∉ after.reverse := mt List.mem_reverse.mp free
    have taken : text.take offset = before.reverse ++ .scalar '\n' :: after.reverse := by
      rw [← List.reverse_reverse (text.take offset), split]
      simp
    rw [ofOffset_of_lines free taken, taken]
    exact .laterLine free
  · rw [ofOffset_of_line newline rfl]
    exact .firstLine newline

end TypeLedger.Position
