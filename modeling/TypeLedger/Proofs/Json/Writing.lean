import TypeLedger.Json.Writer
import TypeLedger.Proofs.Json.Escaping
import TypeLedger.Proofs.Text.Scalar

/-! A JSON text has no halves of surrogate pairs, whatever the strings of its value hold. -/
namespace TypeLedger

open Text (IsScalar)

variable {digits : Text} {e point : Int}

namespace Decimal

theorem isScalar_positional (h : digits.IsScalar) : (positional digits point).IsScalar := by
  unfold positional
  split
  · simp [h, Text.isScalar_replicate]
  · split
    · simp [h, Text.isScalar_replicate]
    · simp [h.subset (List.take_subset _ _), h.subset (List.drop_subset _ _)]

theorem isScalar_scientific (h : digits.IsScalar) : (scientific digits e).IsScalar := by
  have first := h.subset (List.take_subset 1 digits)
  have others := h.subset (List.tail_subset digits)
  simp only [scientific, Text.isScalar_concat, List.forall_mem_cons]
  refine ⟨first, ?_, by simp, ?_, ?_, List.forall_mem_nil _⟩ <;> split <;> simp [others]

theorem isScalar_magnitudeText (m : Nat) (e : Int) : (magnitudeText m e).IsScalar := by
  have digits : IsScalar (((Numeral.ofNat (shortestDigits m e).1).reverse.dropWhile
      (· = .scalar '0')).reverse) := by
    refine (Numeral.isScalar_ofNat (shortestDigits m e).1).subset fun c mem => ?_
    exact List.mem_reverse.mp ((List.dropWhile_subset _) (List.mem_reverse.mp mem))
  unfold magnitudeText
  dsimp only
  split
  · exact isScalar_positional digits
  · exact isScalar_scientific digits

theorem isScalar_shortest (d : Decimal) : d.shortest.IsScalar := by
  unfold shortest
  split
  next negative digits exponent =>
    cases Binary.nearest digits exponent with
    | infinite => cases negative <;> simp
    | finite m e =>
      cases m with
      | zero => cases negative <;> simp
      | succ m => cases negative <;> simp [isScalar_magnitudeText]
  next => split <;> simp
  next => simp

end Decimal

namespace Json

theorem isScalar_fractionText (d : Decimal) : (fractionText d).IsScalar := by
  unfold fractionText
  split
  · simp
  · split <;> simp
  · exact d.isScalar_shortest

theorem isScalar_escape (c : CodePoint) : (escape c).IsScalar := by
  obtain ⟨pieces, h⟩ := exists_escapes c
  generalize escape c = escaped at h
  cases h with
  | @short k d short =>
    cases d with
    | scalar => simp
    | high | low => cases short
  | plain => simp
  | unit | pair => simp [unitEscape]

theorem isScalar_quote (t : Text) : (quote t).IsScalar := by
  simp [quote, Text.isScalar_flatMap, isScalar_escape]

namespace Value

mutual

theorem isScalar_write (v : Value) : v.write.IsScalar := by
  match v with
  | null => simp [write]
  | bool b => cases b <;> simp [write]
  | int n => simp [write]
  | fraction d => exact isScalar_fractionText d
  | string t => exact isScalar_quote t
  | array items =>
    simpa [write] using Text.isScalar_joinWith (by simp) (isScalar_writeItems items)
  | object fields =>
    simpa [write] using Text.isScalar_joinWith (by simp) (isScalar_writeFields fields)

theorem isScalar_writeItems (items : List Value) : ∀ part ∈ writeItems items, part.IsScalar := by
  match items with
  | [] => exact List.forall_mem_nil _
  | v :: rest =>
    exact List.forall_mem_cons.mpr ⟨v.isScalar_write, isScalar_writeItems rest⟩

theorem isScalar_writeFields (fields : List (Text × Value)) :
    ∀ part ∈ writeFields fields, part.IsScalar := by
  match fields with
  | [] => exact List.forall_mem_nil _
  | (key, v) :: rest =>
    refine List.forall_mem_cons.mpr ⟨?_, isScalar_writeFields rest⟩
    simp [isScalar_quote, v.isScalar_write]

end

end Value

end Json
end TypeLedger
