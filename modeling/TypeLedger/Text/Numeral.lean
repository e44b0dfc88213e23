import TypeLedger.Text.Basic

/-! Decimal and hexadecimal numerals. Reading a decimal numeral as an integer is refused when it
has more digits than a limit allows; writing is never refused. -/
namespace TypeLedger.Numeral

def ofNat (n : Nat) : Text := (Nat.toDigits 10 n).map .scalar

def ofInt : Int → Text
  | .ofNat n => ofNat n
  | .negSucc n => .scalar '-' :: ofNat (n + 1)

def isDigit : CodePoint → Bool
  | .scalar c => c.isDigit
  | _ => false

/-- The number that decimal digits denote, leading zeros included. -/
def value (digits : Text) : Nat :=
  digits.foldl (fun n c => 10 * n + (c.toNat - 0x30)) 0

/-- The most digits of an integer numeral in a type expression or a trace. -/
def maxDigits : Nat := 4300

/-- A numeral that has more digits than a limit allows. -/
structure Oversized where
  limit : Nat
  digits : Nat
  deriving DecidableEq, Repr

def Oversized.message (o : Oversized) : Text :=
  .concat ["Exceeds the limit (", ofNat o.limit,
    " digits) for integer string conversion: value has ", ofNat o.digits,
    " digits; use sys.set_int_max_str_digits() to increase the limit"]

/-- The number that decimal digits denote, unless there are more than a limit allows. -/
def read (limit : Option Nat) (digits : Text) : Except Oversized Nat :=
  match limit with
  | none => .ok (value digits)
  | some limit =>
    if digits.length ≤ limit then .ok (value digits) else .error ⟨limit, digits.length⟩

/-- The last `width` hexadecimal digits of a number, in lower case. -/
def hex : Nat → Nat → Text
  | 0, _ => []
  | width + 1, n => hex width (n / 16) ++ [.scalar (Nat.digitChar (n % 16))]

def hexDigit? : CodePoint → Option Nat
  | .scalar c =>
    if '0' ≤ c ∧ c ≤ '9' then some (c.toNat - 0x30)
    else if 'a' ≤ c ∧ c ≤ 'f' then some (c.toNat - 0x57)
    else if 'A' ≤ c ∧ c ≤ 'F' then some (c.toNat - 0x37)
    else none
  | _ => none

end TypeLedger.Numeral
