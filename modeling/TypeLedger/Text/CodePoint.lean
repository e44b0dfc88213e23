/-! Code points and the surrogate pairs that stand for the large ones. A code point is a scalar
value or half of a pair on its own; `joinPair` and `units` are inverse on the large scalars. -/
namespace TypeLedger

/-- A Unicode code point. A half of a surrogate pair carries its ten bits of the pair. -/
inductive CodePoint
  | scalar (c : Char)
  | high (bits : Fin 1024)
  | low (bits : Fin 1024)
  deriving DecidableEq, Repr, Inhabited

namespace CodePoint

def toNat : CodePoint → Nat
  | scalar c => c.toNat
  | high bits => 0xD800 + bits
  | low bits => 0xDC00 + bits

/-- The code point of a number below `0x110000`; larger numbers give U+0000. -/
def ofNat (n : Nat) : CodePoint :=
  if 0xD800 ≤ n ∧ n < 0xDC00 then high (Fin.ofNat 1024 (n - 0xD800))
  else if 0xDC00 ≤ n ∧ n < 0xE000 then low (Fin.ofNat 1024 (n - 0xDC00))
  else scalar (Char.ofNat n)

/-- The large scalar that a high and a low half stand for together. -/
def joinPair (h l : Fin 1024) : CodePoint :=
  scalar (Char.ofNat (0x10000 + 1024 * h + l))

/-- The sixteen-bit units of a code point: itself, or the pair of a large scalar. -/
def units (c : CodePoint) : List Nat :=
  if c.toNat < 0x10000 then [c.toNat]
  else [0xD800 + (c.toNat - 0x10000) / 1024, 0xDC00 + (c.toNat - 0x10000) % 1024]

theorem scalar_range (c : Char) : c.toNat < 0xD800 ∨ 0xDFFF < c.toNat ∧ c.toNat < 0x110000 := by
  have h : c.val.toNat < 0xD800 ∨ 0xDFFF < c.val.toNat ∧ c.val.toNat < 0x110000 := c.valid
  exact h

theorem toNat_lt (c : CodePoint) : c.toNat < 0x110000 := by
  cases c with
  | scalar c => have h := scalar_range c; simp only [toNat]; omega
  | high bits => simp only [toNat]; omega
  | low bits => simp only [toNat]; omega

theorem ofNat_toNat (c : CodePoint) : ofNat c.toNat = c := by
  unfold ofNat
  cases c with
  | scalar c =>
    have h := scalar_range c
    have e : (scalar c).toNat = c.toNat := rfl
    rw [if_neg (by omega), if_neg (by omega), e, Char.ofNat_toNat]
  | high bits =>
    have e : (high bits).toNat = 0xD800 + bits := rfl
    rw [if_pos (by omega)]
    exact congrArg high (Fin.ext (by simp only [e, Fin.ofNat]; omega))
  | low bits =>
    have e : (low bits).toNat = 0xDC00 + bits := rfl
    rw [if_neg (by omega), if_pos (by omega)]
    exact congrArg low (Fin.ext (by simp only [e, Fin.ofNat]; omega))

theorem toNat_inj {a b : CodePoint} (h : a.toNat = b.toNat) : a = b := by
  rw [← ofNat_toNat a, h, ofNat_toNat b]

/-- The order of code points by number. -/
def le (a b : CodePoint) : Bool := a.toNat ≤ b.toNat

end CodePoint
end TypeLedger
