import TypeLedger.Decimal.Shortest
import TypeLedger.Json.Value
import TypeLedger.Text.Quoted

/-! The display of a JSON value in a message, with quoted texts and capitalised words. -/
namespace TypeLedger.Json.Value

mutual

def display : Value → Text
  | null => "None"
  | bool b => if b then "True" else "False"
  | int n => Numeral.ofInt n
  | fraction d => d.shortest
  | string t => Quoted.quote t
  | array items => .concat ["[", .joinWith ", " (displayItems items), "]"]
  | object fields => .concat ["\x7b", .joinWith ", " (displayFields fields), "\x7d"]

def displayItems : List Value → List Text
  | [] => []
  | v :: rest => v.display :: displayItems rest

def displayFields : List (Text × Value) → List Text
  | [] => []
  | (key, v) :: rest => .concat [Quoted.quote key, ": ", v.display] :: displayFields rest

end

end TypeLedger.Json.Value
