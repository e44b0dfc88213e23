import TypeLedger.Text.Basic
import TypeLedger.Decimal.Binary

/-! JSON values. Integers and fractions are kept apart, and the fields of an object have an order
in which no key occurs twice when they are built with `put`. -/
namespace TypeLedger.Json

inductive Value
  | null
  | bool (b : Bool)
  | int (n : Int)
  | fraction (d : Decimal)
  | string (t : Text)
  | array (items : List Value)
  | object (fields : List (Text × Value))
  deriving Inhabited

/-- The fields after a key is set: a key that is there keeps its place, a new one goes last. -/
def put (key : Text) (value : Value) : List (Text × Value) → List (Text × Value)
  | [] => [(key, value)]
  | (k, v) :: rest => if k = key then (k, value) :: rest else (k, v) :: put key value rest

def get? (fields : List (Text × Value)) (key : Text) : Option Value :=
  fields.lookup key

theorem keys_put (key : Text) (value : Value) (fields : List (Text × Value)) :
    (put key value fields).map Prod.fst =
      if key ∈ fields.map Prod.fst then fields.map Prod.fst else fields.map Prod.fst ++ [key] := by
  induction fields with
  | nil => rfl
  | cons field rest ih =>
    obtain ⟨k, v⟩ := field
    by_cases h : k = key
    · simp [put, h]
    · have h' : ¬ key = k := fun e => h e.symm
      simp only [put, h, if_false, List.map_cons, List.mem_cons, h', false_or, ih]
      split <;> rfl

end TypeLedger.Json
