import TypeLedger.Text.Basic
import Mathlib.Data.List.Infix

/-! Texts in which the halves of a surrogate pair stand next to each other, and what becomes of them
when such halves are joined. -/
namespace TypeLedger.Text

variable {t : Text} {c : CodePoint}

/-- No half of a surrogate pair stands in the text. -/
def IsScalar (t : Text) : Prop := ∀ c ∈ t, ∃ k, c = .scalar k

theorem isScalar_ofString (s : String) : IsScalar (ofString s) := by
  intro c mem
  obtain ⟨k, _, rfl⟩ := List.mem_map.mp mem
  exact ⟨k, rfl⟩

theorem IsScalar.drop (h : t.IsScalar) (n : Nat) : IsScalar (t.drop n) :=
  fun c mem => h c (List.mem_of_mem_drop mem)

/-- A high half stands right before a low half. -/
def HasSplitPair (t : Text) : Prop := ∃ h l, [.high h, .low l] <:+: t

theorem IsScalar.not_hasSplitPair (h : t.IsScalar) : ¬t.HasSplitPair := by
  rintro ⟨b, l, inside⟩
  obtain ⟨k, same⟩ := h (.high b) (inside.subset List.mem_cons_self)
  cases same

/-- The text with the scalar of each split pair in place of its halves. -/
def joinPairs : Text → Text
  | .high h :: .low l :: rest => CodePoint.joinPair h l :: joinPairs rest
  | c :: rest => c :: joinPairs rest
  | [] => []

theorem hasSplitPair_cons_iff : HasSplitPair (c :: t) ↔
    (∃ h l rest, c = .high h ∧ t = .low l :: rest) ∨ HasSplitPair t := by
  constructor
  · rintro ⟨h, l, inside⟩
    rcases List.infix_cons_iff.mp inside with ⟨rest, same⟩ | inside
    · obtain ⟨rfl, rfl⟩ := List.cons.inj same
      exact .inl ⟨h, l, rest, rfl, rfl⟩
    · exact .inr ⟨h, l, inside⟩
  · rintro (⟨h, l, rest, rfl, rfl⟩ | ⟨h, l, inside⟩)
    · exact ⟨h, l, List.prefix_append [_, _] rest |>.isInfix⟩
    · exact ⟨h, l, List.infix_cons_iff.mpr (.inr inside)⟩

theorem joinPairs_cons (h : ∀ b l rest, c = .high b → t ≠ .low l :: rest) :
    joinPairs (c :: t) = c :: joinPairs t := by
  rw [joinPairs]
  intro b l rest hc ht
  exact h b l rest hc ht

theorem joinPairs_other (h : ∀ b, c ≠ .high b) : joinPairs (c :: t) = c :: joinPairs t :=
  joinPairs_cons fun b _ _ same => absurd same (h b)

theorem joinPairs_eq_self (h : ¬t.HasSplitPair) : t.joinPairs = t := by
  induction t with
  | nil => rfl
  | cons c t ih =>
    obtain ⟨apart, rest⟩ := not_or.mp (mt hasSplitPair_cons_iff.mpr h)
    rw [joinPairs_cons (fun b l r hc ht => apart ⟨b, l, r, hc, ht⟩), ih rest]

theorem head?_joinPairs_low {l : Fin 1024} (h : t.joinPairs.head? = some (.low l)) :
    t.head? = some (.low l) := by
  unfold joinPairs at h
  split at h
  · cases h
  · exact h
  · exact h

theorem not_hasSplitPair_joinPairs (t : Text) : ¬t.joinPairs.HasSplitPair := by
  fun_induction joinPairs t with
  | case1 h l rest ih =>
    rw [hasSplitPair_cons_iff]
    rintro (⟨_, _, _, high, _⟩ | inside)
    · cases high
    · exact ih inside
  | case2 c rest apart ih =>
    rw [hasSplitPair_cons_iff]
    rintro (⟨b, l, r, rfl, next⟩ | inside)
    · obtain ⟨r', rfl⟩ : ∃ r', rest = .low l :: r' :=
        List.head?_eq_some_iff.mp (head?_joinPairs_low (by rw [next]; rfl))
      exact apart b l r' rfl rfl
    · exact ih inside
  | case3 => simp [HasSplitPair]

end TypeLedger.Text
