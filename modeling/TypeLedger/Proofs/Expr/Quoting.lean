import TypeLedger.Proofs.Expr.Lexing
import TypeLedger.Proofs.Json.Escaping

/-! The scanner on strings that are written with escapes. -/
namespace TypeLedger.Expr

variable {escaped rest tail : Text} {pieces : List Json.Piece}

theorem stringTail_plain {c : CodePoint} (line : c ≠ .scalar '\n') (quote : c ≠ .scalar '"')
    (slash : c ≠ .scalar '\\') (h : stringTail false rest = some tail) :
    stringTail false (c :: rest) = some (c :: tail) := by
  simp [stringTail, line, quote, slash, h]

theorem stringTail_backslash {c : CodePoint} (line : c ≠ .scalar '\n')
    (h : stringTail false rest = some tail) :
    stringTail false (.scalar '\\' :: c :: rest) = some (.scalar '\\' :: c :: tail) := by
  simp [stringTail, line, h]

theorem stringTail_digit (k : Nat) (h : stringTail false rest = some tail) :
    stringTail false (.scalar (k % 16).digitChar :: rest) =
      some (.scalar (k % 16).digitChar :: tail) := by
  have digit : Numeral.hexDigit? (.scalar (k % 16).digitChar) = some (k % 16) :=
    Numeral.hexDigit?_digitChar (Nat.mod_lt k (by decide))
  have other (c : CodePoint) (hc : Numeral.hexDigit? c = none) :
      .scalar (k % 16).digitChar ≠ c := by
    rintro rfl
    cases hc.symm.trans digit
  exact stringTail_plain (other _ rfl) (other _ rfl) (other _ rfl) h

theorem stringTail_unitEscape (n : Nat) (h : stringTail false rest = some tail) :
    stringTail false (Json.unitEscape n ++ rest) = some (Json.unitEscape n ++ tail) := by
  simp only [Json.unitEscape_eq]
  exact stringTail_backslash (by simp) (stringTail_digit _ (stringTail_digit _
    (stringTail_digit _ (stringTail_digit _ h))))

/-- An escape neither ends a string nor leaves a backslash open. -/
theorem stringTail_escapes {c : CodePoint} (escapes : Json.Escapes c escaped pieces)
    (h : stringTail false rest = some tail) :
    stringTail false (escaped ++ rest) = some (escaped ++ tail) := by
  cases escapes with
  | short short =>
    refine stringTail_backslash ?_ h
    rintro rfl
    cases short
  | plain printable quote slash =>
    refine stringTail_plain ?_ (by simpa using quote) (by simpa using slash) h
    rintro same
    cases same
    exact absurd printable (by decide)
  | unit => exact stringTail_unitEscape _ h
  | pair =>
    simp only [List.append_assoc]
    exact stringTail_unitEscape _ (stringTail_unitEscape _ h)

theorem lexes_quote (s : Text) (n : Nat) (rest : Text) :
    Lexes n (Json.quote s ++ rest) [⟨n, .string (Json.quote s)⟩] rest := by
  have ends (s : Text) : stringTail false (s.flatMap Json.escape ++ .scalar '"' :: rest) =
      some (s.flatMap Json.escape ++ [.scalar '"']) := by
    induction s with
    | nil => rfl
    | cons c s ih =>
      obtain ⟨pieces, escapes⟩ := Json.exists_escapes c
      simpa using stringTail_escapes escapes ih
  have leads : (Token.string (Json.quote s)).Leads (Json.quote s ++ rest) :=
    leads_string_iff.mpr ⟨_, _, by simp [Json.quote], ends s, rfl⟩
  exact .token leads .done

end TypeLedger.Expr
