import TypeLedger.Expr.Reader
import TypeLedger.Proofs.Expr.Parsing
import TypeLedger.Proofs.Expr.Denotation

/-! Reading a type expression finds the type that the grammar and the denotation give its text. -/
namespace TypeLedger.Expr

variable {source : Text} {t : Ty}

theorem read_eq_ok_iff_parse :
    read source = .ok t ↔ ∃ u, parse source = .ok u ∧ u.meaning = .ok t := by
  rw [read]
  cases parse source <;> simp

theorem denotes_of_read (h : read source = .ok t) :
    ∃ toks u, Lexes 0 source toks [] ∧ Derives (.union u) toks ∧ u.Denotes t := by
  obtain ⟨u, parsed, meaning⟩ := read_eq_ok_iff_parse.mp h
  obtain ⟨toks, lexes, derives⟩ := parse_eq_ok_iff.mp parsed
  exact ⟨toks, u, lexes, derives, (derives.meaning_eq_ok_iff lexes.spelt).mp meaning⟩

theorem read_of_denotes {u : Union} {toks : List (Located Token)} (lexes : Lexes 0 source toks [])
    (derives : Derives (.union u) toks) (denotes : u.Denotes t) : read source = .ok t :=
  read_eq_ok_iff_parse.mpr ⟨u, parse_eq_ok_iff.mpr ⟨toks, lexes, derives⟩,
    (derives.meaning_eq_ok_iff lexes.spelt).mpr denotes⟩

/-- The reader accepts the texts of the language, each with the type that it denotes. -/
theorem read_eq_ok_iff : read source = .ok t ↔
    ∃ toks u, Lexes 0 source toks [] ∧ Derives (.union u) toks ∧ u.Denotes t := by
  constructor
  · exact denotes_of_read
  · rintro ⟨toks, u, lexes, derives, denotes⟩
    exact read_of_denotes lexes derives denotes

end TypeLedger.Expr
