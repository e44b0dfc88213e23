import TypeLedger.Proofs.Expr.Errors
import TypeLedger.Proofs.Text.Oversized

/-! Type expressions that are refused for the size of a numeral. The digits of the numeral stand in the
text, since only the value of a numeral token can be refused in this way. -/
namespace TypeLedger.Expr

variable {source l : Text} {n : Numeral.Oversized}

/-- A refusal for the size of a numeral is of one that stands in the text. -/
def RefusedIn (source : Text) (e : ReadError) : Prop :=
  ∀ n, e = .oversized n → n.OccursIn source

theorem refusedIn_intLiteral (spelt : IsInt l) (inside : l <:+: source) :
    ErrorsIn (RefusedIn source) (intLiteral l) := by
  obtain ⟨sign, digits, rfl, isSign, _, each⟩ := spelt
  rw [intLiteral_eq isSign each]
  split
  next => exact errorsIn_ok
  next long =>
    refine errorsIn_error ?_
    rintro n ⟨⟩
    refine ⟨rfl, Nat.lt_of_not_le long, digits, ?_, rfl, each⟩
    exact (List.suffix_append sign digits).isInfix.trans inside

theorem blames_refusedIn (source : Text) :
    Blames (fun tok => tok.item.Spelt ∧ tok.item.lexeme <:+: source) (RefusedIn source) where
  fault _ _ _ _ := nofun
  numeral _ _ token := refusedIn_intLiteral token.1 token.2

theorem occursIn_of_read (h : read source = .error (.oversized n)) : n.OccursIn source := by
  rw [read] at h
  split at h
  next u parsed =>
    obtain ⟨toks, lexes, derives⟩ := parse_eq_ok_iff.mp parsed
    have inside (tok : Located Token) (mem : tok ∈ toks) :
        tok.item.Spelt ∧ tok.item.lexeme <:+: source :=
      ⟨lexes.spelt tok mem, lexes.lexeme_infix tok mem⟩
    exact (blames_refusedIn source).meaning derives inside _ h n rfl
  next => cases h

end TypeLedger.Expr
