import TypeLedger.Text.Basic

/-! Lines and columns of offsets. Only a line feed ends a line. -/
namespace TypeLedger

/-- A line and a column, both counted from one. -/
structure Position where
  line : Nat
  column : Nat
  deriving DecidableEq, Repr

namespace Position

/-- The position of the code point at `offset`. -/
def ofOffset (text : Text) (offset : Nat) : Position :=
  let before := text.take offset
  ⟨before.count (.scalar '\n') + 1,
    (before.reverse.takeWhile (· ≠ .scalar '\n')).length + 1⟩

theorem one_le_line (text : Text) (offset : Nat) : 1 ≤ (ofOffset text offset).line :=
  Nat.le_add_left ..

theorem one_le_column (text : Text) (offset : Nat) : 1 ≤ (ofOffset text offset).column :=
  Nat.le_add_left ..

end Position
end TypeLedger
