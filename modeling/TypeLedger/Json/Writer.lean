import TypeLedger.Decimal.Shortest
import TypeLedger.Json.Escape
import TypeLedger.Json.Value

/-! Writing a JSON value on one line of ASCII, with a blank after each comma and colon. -/
namespace TypeLedger.Json

def fractionText : Decimal → Text
  | .notANumber => "NaN"
  | .infinite negative => if negative then "-Infinity" else "Infinity"
  | d => d.shortest

namespace Value

mutual

def write : Value → Text
  | null => "null"
  | bool b => if b then "true" else "false"
  | int n => Numeral.ofInt n
  | fraction d => fractionText d
  | string t => quote t
  | array items => .concat ["[", .joinWith ", " (writeItems items), "]"]
  | object fields => .concat ["\x7b", .joinWith ", " (writeFields fields), "\x7d"]

def writeItems : List Value → List Text
  | [] => []
  | v :: rest => v.write :: writeItems rest

def writeFields : List (Text × Value) → List Text
  | [] => []
  | (key, v) :: rest => .concat [quote key, ": ", v.write] :: writeFields rest

end

end Value

end TypeLedger.Json
