import TypeLedger.Text.Basic

/-! Items with the offset at which they start in a text. -/
namespace TypeLedger

structure Located (α : Type) where
  offset : Nat
  item : α
  deriving Repr

end TypeLedger
