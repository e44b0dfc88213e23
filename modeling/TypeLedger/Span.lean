import TypeLedger.Json.Value
import TypeLedger.Text.Numeral
import TypeLedger.Text.Position

/-! Places that diagnostics point to. Each part may be missing. -/
namespace TypeLedger

/-- A line or a column: a number, or a truth value, which counts as one or zero and is kept as it
was given. -/
inductive Coordinate
  | number (n : Int)
  | truth (b : Bool)
  deriving DecidableEq, Repr

namespace Coordinate

/-- A positive number as a coordinate. Reporters of places give others for what they do not know. -/
def ofJson? : Option Json.Value → Option Coordinate
  | some (.int n) => if 0 < n then some (number n) else none
  | some (.bool true) => some (truth true)
  | _ => none

def text : Coordinate → Text
  | number n => Numeral.ofInt n
  | truth b => if b then "True" else "False"

def toJson : Coordinate → Json.Value
  | number n => .int n
  | truth b => .bool b

end Coordinate

structure Span where
  file : Option Text := none
  line : Option Coordinate := none
  column : Option Coordinate := none
  deriving DecidableEq, Repr

namespace Span

/-- A file as a whole, if it has a name. -/
def ofFile (file : Option Text) : Span := ⟨file, none, none⟩

/-- A position, in a file if there is one. -/
def ofPosition (file : Option Text) (p : Position) : Span :=
  ⟨file, some (.number p.line), some (.number p.column)⟩

/-- The place that a reporter gives by a line and a column of any kind. -/
def ofReported (line column : Option Json.Value) : Span :=
  ⟨none, Coordinate.ofJson? line, Coordinate.ofJson? column⟩

end Span
end TypeLedger
