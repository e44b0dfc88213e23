import TypeLedger.Json.Body
import TypeLedger.Json.Escape
import TypeLedger.Proofs.Text.Numeral
import TypeLedger.Proofs.Text.SplitPair

/-! The escapes of a JSON string and the pieces that they are read as. -/
namespace TypeLedger.Json

open CodePoint (high low joinPair)

variable {c d : CodePoint} {s t escaped : Text} {pieces : List Piece} {o n : Nat}

theorem unitEscape_eq (n : Nat) : unitEscape n = [.scalar '\\', .scalar 'u',
    .scalar (n / 4096 % 16).digitChar, .scalar (n / 256 % 16).digitChar,
    .scalar (n / 16 % 16).digitChar, .scalar (n % 16).digitChar] := by
  rw [unitEscape, Numeral.hex_four]
  rfl

theorem unit?_digits (h : n < 0x10000) :
    unit? (.scalar (n / 4096 % 16).digitChar) (.scalar (n / 256 % 16).digitChar)
      (.scalar (n / 16 % 16).digitChar) (.scalar (n % 16).digitChar) = some (.ofNat n) := by
  have digits : 4096 * (n / 4096 % 16) + 256 * (n / 256 % 16) + 16 * (n / 16 % 16) + n % 16 = n := by
    omega
  have (k : Nat) : Numeral.hexDigit? (.scalar (k % 16).digitChar) = some (k % 16) :=
    Numeral.hexDigit?_digitChar (Nat.mod_lt k (by decide))
  simp [unit?, this, digits]

/-- A code point, what may be written for it, and the pieces that this is read as. -/
inductive Escapes : CodePoint → Text → List Piece → Prop
  | short {k : Char} {d : CodePoint} : shortEscape? d = some (.scalar k) →
      Escapes (.scalar k) [.scalar '\\', d] [.plain (.scalar k)]
  | plain {k : Char} : 0x20 ≤ k.toNat → k ≠ '"' → k ≠ '\\' →
      Escapes (.scalar k) [.scalar k] [.plain (.scalar k)]
  | unit {c : CodePoint} : c.toNat < 0x10000 → Escapes c (unitEscape c.toNat) [.unit c]
  | pair {h l : Fin 1024} :
      Escapes (joinPair h l) (unitEscape (high h).toNat ++ unitEscape (low l).toNat)
        [.unit (high h), .unit (low l)]

/-- A large scalar is the join of the halves that are its units. -/
theorem exists_joinPair (h : ¬c.toNat < 0x10000) : ∃ h l : Fin 1024,
    c = joinPair h l ∧ c.units = [(high h).toNat, (low l).toNat] := by
  have bound := c.toNat_lt
  refine ⟨⟨(c.toNat - 0x10000) / 1024, by omega⟩, ⟨(c.toNat - 0x10000) % 1024, by omega⟩, ?_, ?_⟩
  · cases c with
    | scalar c =>
      have number : 0x10000 + 1024 * ((c.toNat - 0x10000) / 1024) + (c.toNat - 0x10000) % 1024
          = c.toNat := by
        have large : ¬c.toNat < 0x10000 := h
        omega
      simp only [joinPair, CodePoint.toNat, number, Char.ofNat_toNat]
    | high b | low b =>
      simp only [CodePoint.toNat] at h
      omega
  · rw [CodePoint.units, if_neg h]
    rfl

theorem exists_escapes (c : CodePoint) : ∃ pieces, Escapes c (escape c) pieces := by
  unfold escape
  split
  next h =>
    subst h
    exact ⟨_, .short rfl⟩
  split
  next h =>
    subst h
    exact ⟨_, .short rfl⟩
  split
  next h =>
    subst h
    exact ⟨_, .short rfl⟩
  split
  next h =>
    subst h
    exact ⟨_, .short rfl⟩
  split
  next h =>
    subst h
    exact ⟨_, .short rfl⟩
  split
  next h =>
    subst h
    exact ⟨_, .short rfl⟩
  split
  next h =>
    subst h
    exact ⟨_, .short rfl⟩
  split
  next quote slash _ _ _ _ _ h =>
    cases c with
    | scalar k => exact ⟨_, .plain h.1 (fun e => quote (e ▸ rfl)) (fun e => slash (e ▸ rfl))⟩
    | high b | low b =>
      simp only [CodePoint.toNat] at h
      omega
  by_cases small : c.toNat < 0x10000
  · rw [CodePoint.units, if_pos small, List.flatMap_singleton]
    exact ⟨_, .unit small⟩
  · obtain ⟨h, l, join, units⟩ := exists_joinPair small
    rw [units, join]
    exact ⟨_, .pair⟩

end TypeLedger.Json
