import TypeLedger.Proofs.Text.SplitPair
import TypeLedger.Text.Numeral

/-! Texts without halves of surrogate pairs, which are the texts that can be encoded: what is put together
of such texts is one, and numerals are. -/
namespace TypeLedger

namespace Text

variable {c : CodePoint} {s t : Text} {parts : List Text}

@[simp] theorem isScalar_nil : IsScalar [] := List.forall_mem_nil _

@[simp] theorem isScalar_cons : IsScalar (c :: t) ↔ (∃ k, c = .scalar k) ∧ t.IsScalar :=
  List.forall_mem_cons

@[simp] theorem isScalar_append : IsScalar (s ++ t) ↔ s.IsScalar ∧ t.IsScalar :=
  List.forall_mem_append

attribute [simp] isScalar_ofString

theorem IsScalar.subset (h : t.IsScalar) (inside : s ⊆ t) : s.IsScalar :=
  fun c mem => h c (inside mem)

@[simp] theorem isScalar_concat : (concat parts).IsScalar ↔ ∀ part ∈ parts, part.IsScalar :=
  List.forall_mem_flatten

theorem isScalar_flatMap {α : Type} {f : α → Text} {xs : List α} (h : ∀ x ∈ xs, (f x).IsScalar) :
    IsScalar (xs.flatMap f) := by
  intro c mem
  obtain ⟨x, hx, inside⟩ := List.mem_flatMap.mp mem
  exact h x hx c inside

theorem intercalate_cons (separator w : Text) (ws : List Text) :
    separator.intercalate (w :: ws) = w ++ ws.flatMap (separator ++ ·) := by
  induction ws generalizing w with
  | nil => simp
  | cons v ws ih => simp [ih]

theorem isScalar_joinWith (separator : s.IsScalar) (h : ∀ part ∈ parts, part.IsScalar) :
    (joinWith s parts).IsScalar := by
  cases parts with
  | nil => exact isScalar_nil
  | cons first rest =>
    obtain ⟨one, others⟩ := List.forall_mem_cons.mp h
    rw [joinWith, intercalate_cons, isScalar_append]
    exact ⟨one, isScalar_flatMap fun part mem => isScalar_append.mpr ⟨separator, others part mem⟩⟩

theorem isScalar_replicate (n : Nat) (k : Char) : IsScalar (List.replicate n (.scalar k)) := by
  intro c mem
  exact ⟨k, List.eq_of_mem_replicate mem⟩

end Text

namespace Numeral

open Text (IsScalar)

@[simp] theorem isScalar_ofNat (n : Nat) : (ofNat n).IsScalar := by
  intro c mem
  obtain ⟨k, _, rfl⟩ := List.mem_map.mp mem
  exact ⟨k, rfl⟩

@[simp] theorem isScalar_ofInt (i : Int) : (ofInt i).IsScalar := by
  cases i <;> simp [ofInt]

@[simp] theorem isScalar_hex (width n : Nat) : (hex width n).IsScalar := by
  induction width generalizing n with
  | zero => simp [hex]
  | succ width ih => simp [hex, ih]

end Numeral
end TypeLedger
