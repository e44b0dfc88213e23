import TypeLedger.Expr.Meaning
import TypeLedger.Expr.Parser

/-! Reading a type expression: its tree first, and the meaning of the tree only when the whole text
has one. -/
namespace TypeLedger.Expr

/-- The type that a text writes. -/
def read (source : Text) : Except ReadError Ty :=
  match parse source with
  | .ok u => u.meaning
  | .error fault => .error (.faulty fault)

end TypeLedger.Expr
