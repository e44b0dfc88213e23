import TypeLedger.Json.Token
import TypeLedger.Proofs.Text.Numeral

/-! Integers as they are written, and the scanner: it finds the sign and all the digits of a numeral
where what follows can be no part of one. -/
namespace TypeLedger.Json

/-- A numeral that comes before the text ends where the text starts. -/
def EndsNumeral (t : Text) : Prop :=
  ∀ c ∈ t.head?, Numeral.isDigit c = false ∧ c ≠ .scalar '.' ∧ c ≠ .scalar 'e' ∧ c ≠ .scalar 'E'

variable {t w : Text} {tok : Token} {o k : Nat}

theorem takeWhile_isDigit_of_ends (h : EndsNumeral t) : t.takeWhile Numeral.isDigit = [] := by
  cases t with
  | nil => rfl
  | cons c t => exact List.takeWhile_cons_of_neg (by simp [(h c rfl).1])

theorem fraction_of_ends (h : EndsNumeral t) : fraction t = [] := by
  unfold fraction
  split
  · exact absurd rfl (h _ rfl).2.1
  · rfl

theorem exponent_of_ends (h : EndsNumeral t) : exponent t = ([], []) := by
  unfold exponent
  split
  next e _ =>
    obtain ⟨-, -, lower, upper⟩ := h _ rfl
    rw [if_neg]
    rintro (rfl | rfl)
    · exact lower rfl
    · exact upper rfl
  · rfl

theorem wholeDigits_ofNat (h : EndsNumeral t) (n : Nat) :
    wholeDigits (Numeral.ofNat n ++ t) = Numeral.ofNat n := by
  rcases Nat.eq_zero_or_pos n with rfl | positive
  · rfl
  · have whole : (Numeral.ofNat n ++ t).takeWhile Numeral.isDigit = Numeral.ofNat n := by
      rw [List.takeWhile_append_of_pos fun d => Numeral.isDigit_of_mem_ofNat,
        takeWhile_isDigit_of_ends h, List.append_nil]
    have first := Numeral.head?_ofNat positive
    unfold wholeDigits
    split
    next same =>
      obtain ⟨d, ds, digits, -⟩ := Numeral.ofNat_starts n
      rw [digits] at same first
      exact absurd (congrArg some (List.cons.inj same).1) first
    next => exact whole

theorem numeral?_unsigned {d : Char} (unsigned : d ≠ '-') (whole : wholeDigits (.scalar d :: t) = w)
    (digits : w ≠ []) (ends : EndsNumeral ((.scalar d :: t).drop w.length)) :
    numeral? (.scalar d :: t) = some (.integer false w, w.length) := by
  simp [numeral?, unsigned, whole, digits, fraction_of_ends ends, exponent_of_ends ends]

theorem numeral?_negative (whole : wholeDigits t = w) (digits : w ≠ [])
    (ends : EndsNumeral (t.drop w.length)) :
    numeral? (.scalar '-' :: t) = some (.integer true w, w.length + 1) := by
  simp [numeral?, whole, digits, fraction_of_ends ends, exponent_of_ends ends, Nat.add_comm]

theorem numeral?_ofNat (ends : EndsNumeral t) (n : Nat) : numeral? (Numeral.ofNat n ++ t) =
    some (.integer false (Numeral.ofNat n), (Numeral.ofNat n).length) := by
  have whole := wholeDigits_ofNat ends n
  have left : EndsNumeral ((Numeral.ofNat n ++ t).drop (Numeral.ofNat n).length) := by
    rwa [List.drop_left]
  obtain ⟨d, ds, digits, digit⟩ := Numeral.ofNat_starts n
  have unsigned : d ≠ '-' := by
    rintro rfl
    cases digit
  rw [digits, List.cons_append] at whole left ⊢
  exact numeral?_unsigned unsigned whole (List.cons_ne_nil _ _) left

theorem numeral?_ofInt (ends : EndsNumeral t) (i : Int) : numeral? (Numeral.ofInt i ++ t) =
    some (.integer (i < 0) (Numeral.ofNat i.natAbs), (Numeral.ofInt i).length) := by
  cases i with
  | ofNat n =>
    have natural : ¬Int.ofNat n < 0 := Int.not_lt.mpr (Int.natCast_nonneg n)
    rw [decide_eq_false natural]
    exact numeral?_ofNat ends n
  | negSucc n =>
    have left : EndsNumeral ((Numeral.ofNat (n + 1) ++ t).drop (Numeral.ofNat (n + 1)).length) := by
      rwa [List.drop_left]
    rw [decide_eq_true (Int.negSucc_lt_zero n)]
    exact numeral?_negative (wholeDigits_ofNat ends (n + 1)) Numeral.ofNat_ne_nil left

/-- A numeral starts with a digit, or with a minus before a digit, and no word does. -/
theorem word?_ofInt (i : Int) (t : Text) : word? (Numeral.ofInt i ++ t) = none := by
  have letters : ∀ w ∈ words, w.1 ≠ [] ∧ w.1.tail ≠ [] ∧
      w.1.head?.any Numeral.isDigit = false ∧ w.1.tail.head?.any Numeral.isDigit = false := by
    simp only [words, List.forall_mem_cons]
    decide
  have digit {n : Nat} {r w : Text} (starts : w <+: Numeral.ofNat n ++ r)
      (other : w.head?.any Numeral.isDigit = false) : w = [] := by
    obtain ⟨d, ds, digits, digit⟩ := Numeral.ofNat_starts n
    rw [digits] at starts
    rcases List.prefix_cons_iff.mp starts with none | ⟨_, rfl, -⟩
    · exact none
    · simp [digit] at other
  rw [word?, Option.map_eq_none_iff, List.find?_eq_none]
  intro w mem
  rw [List.isPrefixOf_iff_prefix]
  intro starts
  obtain ⟨some, two, first, second⟩ := letters w mem
  cases i with
  | ofNat n => exact some (digit starts first)
  | negSucc n =>
    rcases List.prefix_cons_iff.mp starts with none | ⟨v, same, starts⟩
    · exact some none
    · rw [same] at two second
      exact two (digit starts second)

theorem token_numeral {c : Char} (first : c = '-' ∨ Numeral.isDigit (.scalar c) = true)
    (noWord : word? (.scalar c :: t) = none) (found : numeral? (.scalar c :: t) = some (tok, k)) :
    token o (.scalar c :: t) = .ok (tok, k) := by
  have other {d : Char} (h : d ≠ '-') (h' : Numeral.isDigit (.scalar d) = false) {r : Text} :
      ¬(CodePoint.scalar c :: t) = .scalar d :: r := by
    rintro ⟨⟩
    rcases first with rfl | digit
    · exact h rfl
    · exact Bool.noConfusion (h'.symm.trans digit)
  rw [token, noWord, found] <;> exact fun _ => other (by decide) (by decide)

end TypeLedger.Json
