import TypeLedger.Proofs.Json.Induction
import TypeLedger.Proofs.Text.Numeral
import TypeLedger.Proofs.Text.Oversized

/-! The integers of a JSON text. Their digits stand in the text, so that one which is refused for its
size is a run of digits there, and those of the value that is read are all short enough. -/
namespace TypeLedger.Json

variable {t text digits : Text} {negative : Bool} {o k : Nat} {v : Value} {tok : Token}
  {limit : Option Nat} {n : Numeral.Oversized}

theorem starts_wholeDigits (t : Text) : wholeDigits t <+: t := by
  unfold wholeDigits
  split
  · exact List.cons_prefix_cons.mpr ⟨rfl, List.nil_prefix⟩
  · exact List.takeWhile_prefix _

theorem isDigit_of_mem_wholeDigits {t : Text} : ∀ d ∈ wholeDigits t, Numeral.isDigit d = true := by
  unfold wholeDigits
  split
  · simp only [List.mem_singleton, forall_eq]
    rfl
  · exact List.all_eq_true.mp List.all_takeWhile

theorem numeral?_cases (h : numeral? t = some (tok, k)) :
    (∃ negative m, tok = .integer negative (wholeDigits (t.drop m))) ∨
      ∃ d, tok = .scalar (.fraction d) := by
  revert h
  fun_cases numeral? t with
  | case1 => exact nofun
  | case2 =>
    intro h
    obtain ⟨rfl, _⟩ := Prod.mk.inj (Option.some.inj h)
    exact .inl ⟨_, _, rfl⟩
  | case3 =>
    intro h
    obtain ⟨rfl, _⟩ := Prod.mk.inj (Option.some.inj h)
    exact .inr ⟨_, rfl⟩

/-- A value that is written by a word or as a fraction. -/
def Value.IsPlain (v : Value) : Prop := v = .null ∨ (∃ b, v = .bool b) ∨ ∃ d, v = .fraction d

/-- The numeral of the token stands in the text, and other scalars hold no integer. -/
def Token.StandsIn (t : Text) : Token → Prop
  | .integer _ digits => digits <:+: t ∧ ∀ d ∈ digits, Numeral.isDigit d = true
  | .scalar v => v.IsPlain
  | _ => True

theorem Token.StandsIn.mono {u : Text} (h : tok.StandsIn t) (inside : t <:+: u) :
    tok.StandsIn u := by
  cases tok with
  | integer => exact ⟨h.1.trans inside, h.2⟩
  | _ => exact h

theorem standsIn_of_numeral? (h : numeral? t = some (tok, k)) : tok.StandsIn t := by
  rcases numeral?_cases h with ⟨_, m, rfl⟩ | ⟨d, rfl⟩
  · have stands := (starts_wholeDigits (t.drop m)).isInfix.trans (List.drop_suffix m t).isInfix
    exact ⟨stands, isDigit_of_mem_wholeDigits⟩
  · exact .inr (.inr ⟨d, rfl⟩)

theorem standsIn_of_word? (h : word? t = some (tok, k)) : tok.StandsIn t := by
  obtain ⟨⟨word, v⟩, found, same⟩ := Option.map_eq_some_iff.mp h
  have mem := List.mem_of_find?_eq_some found
  obtain ⟨rfl, _⟩ := Prod.mk.inj same
  have plain : ∀ w ∈ words, w.2.IsPlain := by
    simp [words, Value.IsPlain]
  exact plain _ mem

theorem standsIn_of_token (h : token o t = .ok (tok, k)) : tok.StandsIn t := by
  revert h
  fun_cases token o t with
  | case1 | case2 | case3 | case4 | case5 | case6 | case7 =>
    rintro ⟨⟩
    trivial
  | case8 => exact nofun
  | case9 t found word =>
    rw [word]
    rintro ⟨⟩
    exact standsIn_of_word? word
  | case10 t noWord found numeral =>
    rw [noWord, numeral]
    rintro ⟨⟩
    exact standsIn_of_numeral? numeral
  | case11 t noWord noNumeral =>
    rw [noWord, noNumeral]
    exact nofun

theorem standsIn_of_tokens (o : Nat) (t : Text) : ∀ tok ∈ (tokens o t).1, tok.item.StandsIn t := by
  fun_induction tokens o t with
  | case1 | case3 => exact List.forall_mem_nil _
  | case2 o c rest _ ih => exact fun tok mem => (ih tok mem).mono (List.suffix_cons c rest).isInfix
  | case4 o c rest _ tok k found others ih =>
    refine List.forall_mem_cons.mpr ⟨standsIn_of_token found, fun tok mem => ?_⟩
    have later := (List.drop_suffix (k - 1) rest).trans (List.suffix_cons c rest)
    exact (ih tok mem).mono later.isInfix

namespace State

variable {s next : State} {stack : List Frame} {place : Nat} {stop : Located Stop}
  {toks : List (Located Token)}

/-- Only a numeral is ever refused for its size. -/
theorem takeValue_oversized (h : takeValue limit stack place tok = .error (.oversized n)) :
    ∃ negative digits, tok = .integer negative digits ∧ Numeral.read limit digits = .error n := by
  revert h
  fun_cases takeValue limit stack place tok with
  | case6 negative digits m refused =>
    rintro ⟨⟩
    exact ⟨_, _, rfl, refused⟩
  | _ => rintro ⟨⟩

theorem step_oversized (h : s.step limit place tok = .error (.oversized n)) :
    ∃ negative digits, tok = .integer negative digits ∧ Numeral.read limit digits = .error n := by
  revert h
  fun_cases step limit place tok s with
  | case1 | case3 => exact takeValue_oversized
  | _ => rintro ⟨⟩

theorem run_oversized (h : s.run limit stop toks = .error (.oversized n)) :
    ∃ negative digits, ∃ tok ∈ toks, tok.item = .integer negative digits ∧
      Numeral.read limit digits = .error n := by
  induction toks generalizing s with
  | nil =>
    rw [run] at h
    revert h
    fun_cases finish stop s <;> rintro ⟨⟩
  | cons tok toks ih =>
    rw [run] at h
    split at h
    next refused =>
      cases h
      obtain ⟨negative, digits, same, read⟩ := step_oversized refused
      exact ⟨negative, digits, tok, List.mem_cons_self, same, read⟩
    next =>
      obtain ⟨negative, digits, later, mem, rest⟩ := ih h
      exact ⟨negative, digits, later, List.mem_cons_of_mem _ mem, rest⟩

end State

/-- A text is refused for the size of a numeral that stands in it. -/
theorem occursIn_of_read (h : read (some Numeral.maxDigits) text = .error (.oversized n)) :
    n.OccursIn text := by
  rw [read] at h
  split at h
  next => cases h
  next =>
    obtain ⟨negative, digits, tok, mem, same, refused⟩ := State.run_oversized h
    have stands := standsIn_of_tokens 0 text tok mem
    rw [same] at stands
    exact (Numeral.occursIn_of_read refused stands.2).mono stands.1

/-- The integer occurs in the value. -/
inductive Value.HasInt (i : Int) : Value → Prop
  | int : HasInt i (.int i)
  | array {items : List Value} {v : Value} : v ∈ items → HasInt i v → HasInt i (.array items)
  | object {fields : List (Text × Value)} {f : Text × Value} : f ∈ fields → HasInt i f.2 →
      HasInt i (.object fields)

theorem Value.IsPlain.not_hasInt (h : v.IsPlain) (i : Int) : ¬v.HasInt i := by
  rcases h with rfl | ⟨_, rfl⟩ | ⟨_, rfl⟩ <;> exact nofun

/-- All integers of the value can be written within the limit. -/
def Value.IsShort (v : Value) : Prop :=
  ∀ i, v.HasInt i → (Numeral.ofNat i.natAbs).length ≤ Numeral.maxDigits

theorem inherited_isShort :
    Inherited (some Numeral.maxDigits) (Token.StandsIn text) Value.IsShort where
  string _ _ _ := nofun
  scalar v plain i has := absurd has (plain.not_hasInt i)
  int negative digits n stands read i has := by
    obtain ⟨short, rfl⟩ := Numeral.length_le_of_read read
    cases has
    have abs : (if negative then -(Numeral.value digits : Int) else Numeral.value digits).natAbs =
        Numeral.value digits := by
      split <;> simp
    rw [abs]
    exact Numeral.length_ofNat_value_le stands.2 short (by decide)
  array items each i has := by
    cases has with
    | array mem inner => exact each _ mem i inner
  object fields each i has := by
    cases has with
    | object mem inner => exact each _ mem i inner

/-- An integer that is read can be written again. -/
theorem isShort_of_read (h : read (some Numeral.maxDigits) text = .ok v) : v.IsShort :=
  inherited_isShort.of_read h (standsIn_of_tokens 0 text)

end TypeLedger.Json
