import TypeLedger.Proofs.Expr.NormalForm
import TypeLedger.Proofs.Json.Writing
import TypeLedger.Ty.Printer

/-! The texts of types in normal form can be encoded: names are in ASCII, and strings are written so. -/
namespace TypeLedger

open Text (IsScalar)

namespace Expr

variable {c : CodePoint} {l : Text}

theorem isScalar_of_continuesName (h : continuesName c = true) : ∃ k, c = .scalar k := by
  cases c with
  | scalar k => exact ⟨k, rfl⟩
  | high | low => cases h

theorem IsName.isScalar (h : IsName l) : l.IsScalar := by
  induction h with
  | word first all =>
    rw [Text.isScalar_cons]
    exact ⟨isScalar_of_continuesName (continuesName_of_startsName first), fun d mem =>
      isScalar_of_continuesName (all d mem)⟩
  | dotted first all _ ih =>
    simp only [Text.isScalar_cons, Text.isScalar_append]
    exact ⟨isScalar_of_continuesName (continuesName_of_startsName first), fun d mem =>
      isScalar_of_continuesName (all d mem), ⟨_, rfl⟩, ih⟩

end Expr

theorem LiteralValue.isScalar_print (v : LiteralValue) : v.print.IsScalar := by
  cases v with
  | int n => exact Numeral.isScalar_ofInt n
  | str t => exact Json.isScalar_quote t
  | bool b => cases b <;> exact Text.isScalar_ofString _

theorem Ty.Normal.isScalar_print {t : Ty} (h : t.Normal Expr.IsClassName) : t.print.IsScalar := by
  induction t with
  | unknown | any | never | null => simp [print]
  | named n ts ih =>
    cases h with
    | named name args =>
      cases ts with
      | nil => exact name.1.isScalar
      | cons t ts =>
        have parts : ∀ part ∈ (t :: ts).map print, part.IsScalar :=
          List.forall_mem_map.mpr fun u mem => ih u mem (args u mem)
        have joined := Text.isScalar_joinWith (Text.isScalar_ofString ", ") parts
        simpa [print, printAll, printAll_eq_map, name.1.isScalar] using joined
  | literal base v => simp [print, v.isScalar_print]
  | union ms ih =>
    obtain ⟨_, members, _⟩ := h.members
    rw [print, printAll_eq_map]
    refine Text.isScalar_joinWith (Text.isScalar_ofString " | ") ?_
    exact List.forall_mem_map.mpr fun m mem => ih m mem (members m mem)

end TypeLedger
