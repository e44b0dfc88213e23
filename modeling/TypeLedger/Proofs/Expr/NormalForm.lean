import TypeLedger.Proofs.Expr.Induction
import TypeLedger.Proofs.Ty.Normal

/-! The types that texts denote are in normal form, and their classes have names of their own. -/
namespace TypeLedger.Expr

/-- The names of classes, spelt as the scanner reads names. -/
def IsClassName (l : Text) : Prop := IsName l ∧ l ∉ reservedNames

theorem inherited_normal : Inherited Token.Spelt (Ty.Normal IsClassName) where
  unknown := .unknown
  any := .any
  never := .never
  null := .null
  int _ _ _ _ value := by
    cases value <;> exact .literal _
  string _ _ _ _ value := by
    cases value
    exact .literal _
  bool _ := .literal _
  named _ _ name reserved args := .named ⟨name, reserved⟩ args
  combine _ members := .combine members

theorem read_normal {source : Text} {t : Ty} (h : read source = .ok t) : t.Normal IsClassName :=
  inherited_normal.of_read h fun _ lexes => lexes.spelt

end TypeLedger.Expr
