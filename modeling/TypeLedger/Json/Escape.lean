import TypeLedger.Text.Numeral

/-! The ASCII form of a JSON string: short escapes where there are any, and the units of everything
else outside printable ASCII. -/
namespace TypeLedger.Json

def unitEscape (unit : Nat) : Text := "\\u" ++ Numeral.hex 4 unit

def escape (c : CodePoint) : Text :=
  if c = .scalar '"' then "\\\""
  else if c = .scalar '\\' then "\\\\"
  else if c = .scalar '\n' then "\\n"
  else if c = .scalar '\r' then "\\r"
  else if c = .scalar '\t' then "\\t"
  else if c = .scalar '\x0c' then "\\f"
  else if c = .scalar '\x08' then "\\b"
  else if 0x20 ≤ c.toNat ∧ c.toNat < 0x7F then [c]
  else c.units.flatMap unitEscape

def quote (t : Text) : Text :=
  [.scalar '"'] ++ t.flatMap escape ++ [.scalar '"']

end TypeLedger.Json
