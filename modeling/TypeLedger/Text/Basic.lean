import TypeLedger.Text.CodePoint

/-! Text as a list of code points, in which a surrogate half may stand alone. -/
namespace TypeLedger

abbrev Text := List CodePoint

namespace Text

/-- The code points of a string, none of which is a surrogate half. -/
def ofString (s : String) : Text := s.toList.map .scalar

instance : Coe String Text := ⟨ofString⟩

/-- The string of a text, with the replacement character for a surrogate half. -/
def toString (t : Text) : String :=
  String.ofList (t.map fun
    | .scalar c => c
    | _ => '\uFFFD')

def concat (parts : List Text) : Text := parts.flatten

def joinWith (separator : Text) (parts : List Text) : Text := separator.intercalate parts

/-- The lexicographic order by code point. -/
def le : Text → Text → Bool
  | [], _ => true
  | _ :: _, [] => false
  | a :: as, b :: bs => a.toNat < b.toNat || (a = b && le as bs)

theorem le_cons (a b : CodePoint) (as bs : Text) :
    le (a :: as) (b :: bs) = (decide (a.toNat < b.toNat) || (decide (a = b) && le as bs)) := rfl

theorem le_refl (t : Text) : le t t = true := by
  induction t with
  | nil => rfl
  | cons a as ih => simp [le_cons, ih]

theorem le_total (s t : Text) : (le s t || le t s) = true := by
  induction s generalizing t with
  | nil => rfl
  | cons a as ih =>
    cases t with
    | nil => rfl
    | cons b bs =>
      have h := ih bs
      simp only [le_cons, Bool.or_eq_true, Bool.and_eq_true, decide_eq_true_eq] at h ⊢
      rcases Nat.lt_trichotomy a.toNat b.toNat with lt | eq | gt
      · exact .inl (.inl lt)
      · have same := CodePoint.toNat_inj eq
        exact h.imp (fun h => .inr ⟨same, h⟩) (fun h => .inr ⟨same.symm, h⟩)
      · exact .inr (.inl gt)

theorem le_trans {s t u : Text} (h : le s t = true) (k : le t u = true) : le s u = true := by
  induction s generalizing t u with
  | nil => rfl
  | cons a as ih =>
    cases t with
    | nil => cases h
    | cons b bs =>
      cases u with
      | nil => cases k
      | cons c cs =>
        simp only [le_cons, Bool.or_eq_true, Bool.and_eq_true, decide_eq_true_eq] at h k ⊢
        rcases h with lt | ⟨rfl, h⟩
        · rcases k with lt' | ⟨rfl, _⟩
          · exact .inl (Nat.lt_trans lt lt')
          · exact .inl lt
        · exact k.imp id fun ⟨same, k⟩ => ⟨same, ih h k⟩

theorem le_antisymm {s t : Text} (h : le s t = true) (k : le t s = true) : s = t := by
  induction s generalizing t with
  | nil =>
    cases t with
    | nil => rfl
    | cons => cases k
  | cons a as ih =>
    cases t with
    | nil => cases h
    | cons b bs =>
      simp only [le_cons, Bool.or_eq_true, Bool.and_eq_true, decide_eq_true_eq] at h k
      rcases h with lt | ⟨rfl, h⟩
      · rcases k with lt' | ⟨rfl, _⟩
        · exact absurd lt' (Nat.lt_asymm lt)
        · exact absurd lt (Nat.lt_irrefl _)
      · rw [ih h (k.resolve_left (Nat.lt_irrefl _)).2]

end Text
end TypeLedger
