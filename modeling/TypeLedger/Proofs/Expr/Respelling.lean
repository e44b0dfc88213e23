import TypeLedger.Proofs.Expr.RoundTrip
import TypeLedger.Proofs.Json.Decoding

/-! Printing what was read. The type of a text can be printed and read again, since its numerals have
no more digits than those of the text, and its strings no halves of surrogate pairs that would be
joined. -/
namespace TypeLedger

/-- The text of the value is read as the value. -/
def LiteralValue.Writable : LiteralValue → Prop
  | int i => (Numeral.ofNat i.natAbs).length ≤ Numeral.maxDigits
  | str s => ¬s.HasSplitPair
  | bool _ => True

namespace Expr

variable {source : Text} {t : Ty} {digits : Text}

theorem writable_int {i : Int} (abs : i.natAbs = Numeral.value digits)
    (each : ∀ d ∈ digits, Numeral.isDigit d = true) (short : digits.length ≤ Numeral.maxDigits) :
    (LiteralValue.int i).Writable := by
  rw [LiteralValue.Writable, abs]
  exact Numeral.length_ofNat_value_le each short (by decide)

/-- A type without values of its own has those of its arguments or members. -/
theorem inherited_writable :
    Inherited (fun tok => tok.Spelt ∧ Text.IsScalar tok.lexeme)
      (fun t => ∀ v, t.HasValue v → v.Writable) where
  unknown _ := nofun
  any _ := nofun
  never _ := nofun
  null _ := nofun
  int n l t _ value v has := by
    cases value with
    | int each short | plus each short | minus each short =>
      obtain rfl := Ty.hasValue_literal_iff.mp has
      exact writable_int (by simp) each short
  string n l t spelt value v has := by
    cases value with
    | string read =>
      obtain rfl := Ty.hasValue_literal_iff.mp has
      obtain ⟨⟨body, rfl, _⟩, scalar⟩ := spelt
      exact Json.not_hasSplitPair_of_readString read (scalar.drop 1)
  bool b v has := by
    obtain rfl := Ty.hasValue_literal_iff.mp has
    trivial
  named l ts _ _ each v has := by
    obtain ⟨t, mem, inner⟩ := Ty.hasValue_named_iff.mp has
    exact each t mem v inner
  combine ts each v has := by
    obtain ⟨t, mem, inner⟩ := has.of_combine
    exact each t mem v inner

theorem writable_of_read (h : read source = .ok t) (scalar : source.IsScalar) :
    ∀ v, t.HasValue v → v.Writable := by
  refine inherited_writable.of_read h fun toks lexes tok mem => ⟨lexes.spelt tok mem, ?_⟩
  exact fun c hc => scalar c (lexes.lexeme_subset tok mem hc)

/-- A type with a text that is read as the type. -/
structure Legible (t : Ty) : Prop where
  normal : t.Normal IsClassName
  values : ∀ v, t.HasValue v → v.Writable

theorem Legible.of_read (h : read source = .ok t) (scalar : source.IsScalar) : Legible t where
  normal := read_normal h
  values := writable_of_read h scalar

theorem Legible.unknown : Legible .unknown := ⟨.unknown, fun _ => nofun⟩

theorem Legible.combine {ts : List Ty} (h : ∀ t ∈ ts, Legible t) : Legible (.combine ts) where
  normal := .combine fun t mem => (h t mem).normal
  values v has := by
    obtain ⟨t, mem, inner⟩ := has.of_combine
    exact (h t mem).values v inner

theorem Legible.reread (h : Legible t) : read t.print = .ok t := by
  obtain ⟨u, rejoined, writes, _⟩ := exists_rereads h.normal fun i => h.values (.int i)
  obtain rfl := rejoined.eq_iff.mpr fun s => h.values (.str s)
  exact writes.read

/-- What is read of a text without halves is read again of its own text. -/
theorem read_print_of_read (h : read source = .ok t) (scalar : source.IsScalar) :
    read t.print = .ok t :=
  (Legible.of_read h scalar).reread

end Expr
end TypeLedger
