import TypeLedger.Text.Numeral
import Mathlib.Algebra.Group.Nat.Defs
import Mathlib.Data.List.Induction

/-! Numerals that are written can be read, and have no more digits than those they were read from. -/
namespace TypeLedger.Numeral

variable {n k : Nat} {digits : Text}

theorem isDigit_of_mem_ofNat {d : CodePoint} (h : d ∈ ofNat n) : isDigit d = true := by
  obtain ⟨c, hc, rfl⟩ := List.mem_map.mp h
  exact Nat.isDigit_of_mem_toDigits (by decide) (by decide) hc

theorem ofNat_ne_nil : ofNat n ≠ [] :=
  fun none => Nat.toDigits_ne_nil (List.map_eq_nil_iff.mp none)

theorem ofNat_starts (n : Nat) :
    ∃ c ds, ofNat n = .scalar c :: ds ∧ isDigit (.scalar c) = true := by
  obtain ⟨d, ds, digits⟩ := List.exists_cons_of_ne_nil (ofNat_ne_nil (n := n))
  have digit : isDigit d = true := isDigit_of_mem_ofNat (digits ▸ List.mem_cons_self)
  cases d with
  | scalar c => exact ⟨c, ds, digits, digit⟩
  | high | low => cases digit

theorem ofInt_starts (i : Int) : ∃ c r, ofInt i = .scalar c :: r ∧
    (c = '-' ∨ isDigit (.scalar c) = true) := by
  cases i with
  | ofNat n =>
    obtain ⟨c, ds, digits, digit⟩ := ofNat_starts n
    exact ⟨c, ds, digits, .inr digit⟩
  | negSucc n => exact ⟨'-', _, rfl, .inl rfl⟩

/-- The only numeral that starts with a zero is that of zero. -/
theorem head?_ofNat (some : 0 < n) : (ofNat n).head? ≠ .some (.scalar '0') := by
  induction n using Nat.strongRecOn with
  | ind n ih =>
    by_cases small : n < 10
    · have each : ∀ k < 10, 0 < k → (ofNat k).head? ≠ .some (.scalar '0') := by decide
      exact each n small some
    · have first := ih (n / 10) (Nat.div_lt_self some (by decide)) (by omega)
      have split : ofNat n = ofNat (n / 10) ++ [.scalar (n % 10).digitChar] := by
        rw [ofNat, Nat.toDigits_of_base_le (by decide) (by omega), List.map_append]
        rfl
      obtain ⟨d, ds, same, -⟩ := ofNat_starts (n / 10)
      rw [same] at first split
      rwa [split]

theorem value_ofNat (n : Nat) : value (ofNat n) = n := by
  rw [value, ofNat, List.foldl_map]
  exact Nat.ofDigitChars_ten_toDigits

theorem toNat_lt_of_isDigit {d : CodePoint} (h : isDigit d = true) : d.toNat - 0x30 < 10 := by
  cases d with
  | scalar c =>
    have bound : c.toNat ≤ 57 := (of_decide_eq_true (Bool.and_eq_true_iff.mp h).2 : c.val ≤ 57)
    simp only [CodePoint.toNat]
    omega
  | high | low => cases h

theorem value_lt (h : ∀ d ∈ digits, isDigit d = true) : value digits < 10 ^ digits.length := by
  induction digits using List.reverseRecOn with
  | nil => simp [value]
  | append_singleton ds d ih =>
    obtain ⟨others, last⟩ := List.forall_mem_append.mp h
    have before : value ds < 10 ^ ds.length := ih others
    have digit := toNat_lt_of_isDigit (last d List.mem_cons_self)
    have step : value (ds ++ [d]) = 10 * value ds + (d.toNat - 0x30) := by
      simp [value, List.foldl_append]
    rw [step, List.length_append, List.length_singleton, Nat.pow_succ]
    omega

theorem length_ofNat_value_le (h : ∀ d ∈ digits, isDigit d = true) (short : digits.length ≤ k)
    (some : 0 < k) : (ofNat (value digits)).length ≤ k := by
  rw [ofNat, List.length_map, Nat.length_toDigits_le_iff (by decide) some]
  exact Nat.lt_of_lt_of_le (value_lt h) (Nat.pow_le_pow_right (by decide) short)

theorem hexDigit?_digitChar (h : k < 16) : hexDigit? (.scalar k.digitChar) = some k := by
  have each : ∀ k < 16, hexDigit? (.scalar (Nat.digitChar k)) = some k := by decide
  exact each k h

/-- The last four hexadecimal digits of a number, from the left. -/
theorem hex_four (n : Nat) : hex 4 n =
    [.scalar (n / 4096 % 16).digitChar, .scalar (n / 256 % 16).digitChar,
      .scalar (n / 16 % 16).digitChar, .scalar (n % 16).digitChar] := by
  simp [hex, Nat.div_div_eq_div_mul]

end TypeLedger.Numeral
