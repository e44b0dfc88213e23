import TypeLedger.Json.Display
import TypeLedger.Ty.Basic

/-! Literal types of JSON values. Only integers, truth values and texts have one. -/
namespace TypeLedger.Ty

/-- A value that has no literal type. -/
structure UnsupportedLiteral where
  value : Json.Value

def UnsupportedLiteral.message (u : UnsupportedLiteral) : Text :=
  "unsupported literal value " ++ u.value.display

def ofJson : Json.Value → Except UnsupportedLiteral Ty
  | .bool b => .ok (ofValue (.bool b))
  | .int n => .ok (ofValue (.int n))
  | .string t => .ok (ofValue (.str t))
  | v => .error ⟨v⟩

end TypeLedger.Ty
