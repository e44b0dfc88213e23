import TypeLedger.Text.Basic

/-! One spelling for the end of a line. -/
namespace TypeLedger.Text

/-- Writes a line feed for a carriage return and for the pair of a carriage return and a line
feed. -/
def unifyNewlines : Text → Text
  | [] => []
  | .scalar '\r' :: .scalar '\n' :: rest => .scalar '\n' :: unifyNewlines rest
  | .scalar '\r' :: rest => .scalar '\n' :: unifyNewlines rest
  | c :: rest => c :: unifyNewlines rest

end TypeLedger.Text
