import TypeLedger.Text.Numeral
import TypeLedger.Text.Printable

/-! Quoting a text for a message. The mark is the single quote, unless the text holds one and no
double quote; the backslash and the mark are escaped, and so is what is not printable. -/
namespace TypeLedger.Quoted

def mark (t : Text) : CodePoint :=
  if .scalar '\'' ∈ t ∧ .scalar '"' ∉ t then .scalar '"' else .scalar '\''

/-- The shortest of the numbered escapes that fits. -/
def numbered (c : CodePoint) : Text :=
  if c.toNat < 0x100 then "\\x" ++ Numeral.hex 2 c.toNat
  else if c.toNat < 0x10000 then "\\u" ++ Numeral.hex 4 c.toNat
  else "\\U" ++ Numeral.hex 8 c.toNat

def escape (mark c : CodePoint) : Text :=
  if c = mark ∨ c = .scalar '\\' then [.scalar '\\', c]
  else if c = .scalar '\t' then "\\t"
  else if c = .scalar '\n' then "\\n"
  else if c = .scalar '\r' then "\\r"
  else if Text.isPrintable c then [c]
  else numbered c

def quote (t : Text) : Text :=
  [mark t] ++ t.flatMap (escape (mark t)) ++ [mark t]

end TypeLedger.Quoted
