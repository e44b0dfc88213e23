/-! Decimal fractions and the nearest number of the binary format with 53 significant bits. -/
namespace TypeLedger

/-- A decimal fraction, `digits * 10 ^ exponent` with a sign that zero has too, or one of the
marks for what no fraction denotes. -/
inductive Decimal
  | finite (negative : Bool) (digits : Nat) (exponent : Int)
  | infinite (negative : Bool)
  | notANumber
  deriving DecidableEq, Repr

/-- A magnitude of the binary format: `mantissa * 2 ^ exponent`, or one that is too large. -/
inductive Binary
  | finite (mantissa : Nat) (exponent : Int)
  | infinite
  deriving DecidableEq, Repr

namespace Binary

/-- A ratio as two numbers, scaled by a power of `base`. -/
def scaled (base n : Nat) (exponent : Int) : Nat × Nat :=
  if 0 ≤ exponent then (n * Nat.pow base exponent.toNat, 1)
  else (n, Nat.pow base (-exponent).toNat)

/-- The least number of 53 bits, and the least that has more. -/
def leastMantissa : Nat := 0x10000000000000

def mantissaBound : Nat := 0x20000000000000

/-- The quotient rounded to the nearest number, a half to the even one. -/
def roundDiv (num den : Nat) : Nat :=
  let q := num / den
  let r := num % den
  if 2 * r < den then q else if den < 2 * r then q + 1 else q + q % 2

/-- The binary exponent at which the ratio has 53 significant bits, but none below the least. -/
def exponentOf (num den : Nat) : Int :=
  let guess : Int := (Nat.log2 num : Int) - Nat.log2 den - 53
  let (n, d) := scaled 2 num (-guess)
  max (-1074) (if n < mantissaBound * (d * den) then guess else guess + 1)

/-- The magnitude nearest to a positive ratio. -/
def nearestRatio (num den : Nat) : Binary :=
  let e := exponentOf num den
  let (n, d) := scaled 2 num (-e)
  let m := roundDiv n (d * den)
  let (m, e) := if m = mantissaBound then (leastMantissa, e + 1) else (m, e)
  if 971 < e then infinite else finite m e

/-- The magnitude nearest to `digits * 10 ^ exponent`. Exponents far outside the format are decided
by the number of digits. -/
def nearest (digits : Nat) (exponent : Int) : Binary :=
  let magnitude : Int := exponent + (Nat.toDigits 10 digits).length
  if digits = 0 ∨ magnitude < -330 then finite 0 (-1074)
  else if 310 < magnitude then infinite
  else
    let (num, den) := scaled 10 digits exponent
    nearestRatio num den

end Binary
end TypeLedger
