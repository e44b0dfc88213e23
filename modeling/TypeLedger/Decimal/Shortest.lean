import TypeLedger.Decimal.Binary
import TypeLedger.Text.Numeral

/-! The fewest digits that read back as a number of the binary format, and the text they are
written in: positional for decimal exponents from -4 to 15, scientific for all others. -/
namespace TypeLedger.Decimal

/-- The ends of the interval of ratios that round to `m * 2 ^ e`, in quarters of `2 ^ e`. -/
def quarters (m : Nat) (e : Int) : Nat × Nat :=
  if m = Binary.leastMantissa ∧ -1074 < e then (4 * m - 1, 4 * m + 2) else (4 * m - 2, 4 * m + 2)

/-- `10 ^ place * digits` reads back as `m * 2 ^ e`. -/
def readsBack (m : Nat) (e place : Int) (digits : Nat) : Bool :=
  let (lower, upper) := quarters m e
  let (dn, dd) := Binary.scaled 10 digits place
  let (fn, fd) := Binary.scaled 2 1 (e - 2)
  if m % 2 = 0 then lower * fn * dd ≤ dn * fd && dn * fd ≤ upper * fn * dd
  else lower * fn * dd < dn * fd && dn * fd < upper * fn * dd

/-- The digits of the multiple of `10 ^ place` nearest to `m * 2 ^ e` that reads back, if the
multiple below or the one above does. -/
def atPlace? (m : Nat) (e place : Int) : Option Nat :=
  let (bn, bd) := Binary.scaled 2 m e
  let (pn, pd) := Binary.scaled 10 1 place
  let num := bn * pd
  let den := bd * pn
  let below := num / den
  let above := below + 1
  match readsBack m e place below, readsBack m e place above with
  | true, true => some (Binary.roundDiv num den)
  | true, false => some below
  | false, true => some above
  | false, false => none

/-- The number of places before the point of `m * 2 ^ e`, zero or negative below a tenth. -/
def pointOf (m : Nat) (e : Int) : Int :=
  if 0 ≤ e then (Nat.toDigits 10 (m * Nat.pow 2 e.toNat)).length
  else
    let whole := m / Nat.pow 2 (-e).toNat
    if 0 < whole then (Nat.toDigits 10 whole).length
    else (Nat.toDigits 10 (m * Nat.pow 5 (-e).toNat)).length + e

/-- The shortest digits of `m * 2 ^ e`, and the place of the last one. -/
def shortestDigits (m : Nat) (e : Int) : Nat × Int :=
  let point := pointOf m e
  let found := (List.range 17).findSome? fun (n : Nat) =>
    let place := point - (n + 1 : Int)
    (atPlace? m e place).map fun digits => (digits, place)
  found.getD (m, e)

/-- Digits with the point after `point` of them, at least one digit on either side. -/
def positional (digits : Text) (point : Int) : Text :=
  if point ≤ 0 then .concat ["0.", List.replicate (-point).toNat (.scalar '0'), digits]
  else if digits.length ≤ point.toNat then
    .concat [digits, List.replicate (point.toNat - digits.length) (.scalar '0'), ".0"]
  else .concat [digits.take point.toNat, ".", digits.drop point.toNat]

/-- One digit before the point, no point before nothing, and an exponent with a sign and at least
two digits. -/
def scientific (digits : Text) (exponent : Int) : Text :=
  let fraction := digits.drop 1
  let size := Numeral.ofNat exponent.natAbs
  .concat [digits.take 1, if fraction = [] then [] else "." ++ fraction, "e",
    if exponent < 0 then "-" else "+",
    if size.length < 2 then "0" ++ size else size]

/-- The text of a positive number of the binary format. -/
def magnitudeText (m : Nat) (e : Int) : Text :=
  let (n, place) := shortestDigits m e
  let written := Numeral.ofNat n
  let digits := (written.reverse.dropWhile (· = .scalar '0')).reverse
  let point := place + written.length
  if -4 < point ∧ point ≤ 16 then positional digits point else scientific digits (point - 1)

/-- The shortest text of the number of the binary format nearest to a decimal. -/
def shortest : Decimal → Text
  | finite negative digits exponent =>
    let body : Text := match Binary.nearest digits exponent with
      | .infinite => "inf"
      | .finite 0 _ => "0.0"
      | .finite m e => magnitudeText m e
    if negative then "-" ++ body else body
  | infinite negative => if negative then "-inf" else "inf"
  | notANumber => "nan"

end TypeLedger.Decimal
