import TypeLedger.Json.Escape
import TypeLedger.Ty.Basic

/-! The text of a type. Text values are written as JSON strings. -/
namespace TypeLedger

def LiteralValue.print : LiteralValue → Text
  | int n => Numeral.ofInt n
  | str t => Json.quote t
  | bool b => if b then "True" else "False"

namespace Ty

mutual

def print : Ty → Text
  | unknown => "Unknown"
  | any => "Any"
  | never => "Never"
  | null => "None"
  | named name [] => name
  | named name (a :: as) => .concat [name, "[", .joinWith ", " (printAll (a :: as)), "]"]
  | literal _ value => .concat ["Literal[", value.print, "]"]
  | union members => .joinWith " | " (printAll members)

def printAll : List Ty → List Text
  | [] => []
  | t :: ts => t.print :: printAll ts

end

theorem printAll_eq_map (ts : List Ty) : printAll ts = ts.map print := by
  induction ts with
  | nil => rfl
  | cons t ts ih => simp [printAll, ih]

end Ty
end TypeLedger
