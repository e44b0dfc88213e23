import TypeLedger.Proofs.Json.Integer
import TypeLedger.Proofs.Json.StringRoundTrip
import TypeLedger.Proofs.Text.Newline
import Mathlib.Data.List.Chain

/-! JSON tokens as they are written, with blanks at will around them. No token runs into the one after
it where one of the two is a mark, and then the scanner finds the tokens again. -/
namespace TypeLedger.Json

/-- The character of a bracket, a brace, a colon or a comma. -/
def Token.mark? : Token → Option Char
  | .leftBracket => some '['
  | .rightBracket => some ']'
  | .leftBrace => some '\x7b'
  | .rightBrace => some '\x7d'
  | .colon => some ':'
  | .comma => some ','
  | .integer .. | .string _ | .scalar _ => none

/-- A token and a text that is written for it. Strings may be escaped at will. -/
inductive Spells : Token → Text → Prop
  | mark {tok : Token} {c : Char} : tok.mark? = some c → Spells tok [.scalar c]
  | integer (i : Int) : Spells (.integer (i < 0) (Numeral.ofNat i.natAbs)) (Numeral.ofInt i)
  | string {s e : Text} {p : List Piece} : EscapesText s e p →
      Spells (.string s) (.scalar '"' :: (e ++ [.scalar '"']))
  | null : Spells (.scalar .null) "null"
  | bool (b : Bool) : Spells (.scalar (.bool b)) (if b then "true" else "false")

/-- The tokens as a text with blanks before, between and after them. -/
inductive Spaced : List Token → Text → Prop
  | nil : Spaced [] []
  | blank {c toks t} : isBlank c = true → Spaced toks t → Spaced toks (c :: t)
  | token {tok toks l t} : Spells tok l → Spaced toks t → Spaced (tok :: toks) (l ++ t)

/-- The token is no string with the two halves of a surrogate pair next to each other, which would be
read as one scalar. -/
def Token.IsWhole : Token → Prop
  | .string s => ¬s.HasSplitPair
  | _ => True

/-- Tokens that are found again in a text: of two next to each other one is a mark. -/
structure Distinct (toks : List Token) : Prop where
  apart : toks.IsChain fun a b => a.mark?.isSome ∨ b.mark?.isSome
  whole : ∀ tok ∈ toks, tok.IsWhole

variable {c : CodePoint} {l t : Text} {tok : Token} {toks : List Token} {n : Nat}

/-- The scanner finds the token that is written, if what follows it does not go on with it. -/
theorem Spells.token (h : Spells tok l) (whole : tok.IsWhole)
    (ends : tok.mark?.isSome ∨ EndsNumeral t) (o : Nat) :
    token o (l ++ t) = .ok (tok, l.length) := by
  cases h with
  | mark is =>
    cases tok <;> cases is <;> rfl
  | integer i =>
    have found := numeral?_ofInt (ends.resolve_left nofun) i
    have noWord := word?_ofInt i t
    obtain ⟨c, r, same, first⟩ := Numeral.ofInt_starts i
    rw [same, List.cons_append] at found noWord ⊢
    exact token_numeral first noWord found
  | string escapes =>
    rw [List.cons_append, List.append_assoc, List.singleton_append, Json.token, escapes.readBody,
      Text.joinPairs_eq_self whole]
    simp
  | null => rfl
  | bool b => cases b <;> rfl

theorem Spells.starts (h : Spells tok l) :
    ∃ c r, l = c :: r ∧ isBlank c = false ∧ c ≠ .scalar '\uFEFF' := by
  cases h with
  | mark is => cases tok <;> cases is <;> exact ⟨_, _, rfl, by decide, by decide⟩
  | integer i =>
    obtain ⟨c, r, same, first⟩ := Numeral.ofInt_starts i
    refine ⟨.scalar c, r, same, ?_, ?_⟩
    · rw [Bool.eq_false_iff]
      intro blank
      simp only [isBlank, Bool.or_eq_true, decide_eq_true_eq] at blank
      rcases blank with ((is | is) | is) | is <;> (cases is; revert first; decide)
    · rintro ⟨⟩
      revert first
      decide
  | string | null => exact ⟨_, _, rfl, by decide, by decide⟩
  | bool b => cases b <;> exact ⟨_, _, rfl, by decide, by decide⟩

theorem tokens_blank (h : isBlank c = true) : tokens n (c :: t) = tokens (n + 1) t := by
  rw [tokens, if_pos h]

theorem Spells.tokens (h : Spells tok l) (whole : tok.IsWhole)
    (ends : tok.mark?.isSome ∨ EndsNumeral t) :
    tokens n (l ++ t) = (⟨n, tok⟩ :: (tokens (n + l.length) t).1, (tokens (n + l.length) t).2) := by
  have scanned := h.token whole ends n
  obtain ⟨c, r, rfl, notBlank, -⟩ := h.starts
  rw [List.cons_append] at scanned ⊢
  rw [Json.tokens, if_neg (by simp [notBlank]), scanned]
  simp

theorem endsNumeral_of_blank (h : isBlank c = true) : EndsNumeral (c :: t) := by
  rintro _ ⟨⟩
  simp only [isBlank, Bool.or_eq_true, decide_eq_true_eq] at h
  rcases h with ((rfl | rfl) | rfl) | rfl <;> decide

theorem Spaced.endsNumeral (h : Spaced toks t) (mark : ∀ b ∈ toks.head?, b.mark?.isSome) :
    EndsNumeral t := by
  cases h with
  | nil => exact nofun
  | blank blank => exact endsNumeral_of_blank blank
  | @token tok toks l t spells _ =>
    have is := mark tok rfl
    cases spells with
    | mark =>
      rintro _ ⟨⟩
      cases tok <;> rename_i is' <;> cases is' <;> decide
    | _ => cases is

theorem distinct_cons_iff : Distinct (tok :: toks) ↔ tok.IsWhole ∧ Distinct toks ∧
    ∀ b ∈ toks.head?, tok.mark?.isSome ∨ b.mark?.isSome := by
  constructor
  · rintro ⟨apart, whole⟩
    obtain ⟨first, apart⟩ := List.isChain_cons.mp apart
    obtain ⟨one, whole⟩ := List.forall_mem_cons.mp whole
    exact ⟨one, ⟨apart, whole⟩, first⟩
  · rintro ⟨one, ⟨apart, whole⟩, first⟩
    exact ⟨List.isChain_cons.mpr ⟨first, apart⟩, List.forall_mem_cons.mpr ⟨one, whole⟩⟩

/-- A text of spaced tokens is read to its end as those tokens. -/
theorem Spaced.tokens (h : Spaced toks t) (distinct : Distinct toks) (n : Nat) : ∃ located,
    tokens n t = (located, ⟨n + t.length, .finished⟩) ∧ located.map Located.item = toks := by
  induction h generalizing n with
  | nil => exact ⟨[], by rw [Json.tokens]; rfl, rfl⟩
  | @blank c toks t blank _ ih =>
    obtain ⟨located, scanned, same⟩ := ih distinct (n + 1)
    refine ⟨located, ?_, same⟩
    rw [tokens_blank blank, scanned, List.length_cons, Nat.add_right_comm, Nat.add_assoc]
  | @token tok toks l t spells rest ih =>
    obtain ⟨whole, distinct, first⟩ := distinct_cons_iff.mp distinct
    obtain ⟨located, scanned, same⟩ := ih distinct (n + l.length)
    have ends : tok.mark?.isSome ∨ EndsNumeral t := by
      by_cases is : tok.mark?.isSome
      · exact .inl is
      · exact .inr (rest.endsNumeral fun b head => (first b head).resolve_left is)
    refine ⟨⟨n, tok⟩ :: located, ?_, congrArg (tok :: ·) same⟩
    rw [spells.tokens whole ends, scanned, List.length_append, Nat.add_assoc]

theorem isGraphic_ofNat (n : Nat) : Text.IsGraphic (Numeral.ofNat n) := by
  intro d mem
  have digit := Numeral.isDigit_of_mem_ofNat mem
  cases d with
  | scalar k =>
    have first : 48 ≤ k.toNat := of_decide_eq_true (Bool.and_eq_true_iff.mp digit).1
    exact ⟨k, rfl, by omega⟩
  | high | low => cases digit

theorem isGraphic_unitEscape (n : Nat) : Text.IsGraphic (unitEscape n) := by
  have digit (k : Nat) : 0x20 ≤ (k % 16).digitChar.toNat := by
    have each : ∀ d < 16, 0x20 ≤ (Nat.digitChar d).toNat := by decide
    exact each _ (Nat.mod_lt k (by decide))
  rw [unitEscape_eq]
  simp only [Text.IsGraphic, List.forall_mem_cons]
  exact ⟨⟨_, rfl, by decide⟩, ⟨_, rfl, by decide⟩, ⟨_, rfl, digit _⟩, ⟨_, rfl, digit _⟩,
    ⟨_, rfl, digit _⟩, ⟨_, rfl, digit _⟩, List.forall_mem_nil _⟩

theorem Escapes.isGraphic {e : Text} {p : List Piece} (h : Escapes c e p) : Text.IsGraphic e := by
  cases h with
  | @short k d short =>
    have visible : ∃ k : Char, d = .scalar k ∧ 0x20 ≤ k.toNat := by
      unfold shortEscape? at short
      split at short <;> first | exact ⟨_, rfl, by decide⟩ | cases short
    exact List.forall_mem_cons.mpr ⟨⟨_, rfl, by decide⟩, List.forall_mem_singleton.mpr visible⟩
  | plain printable => exact List.forall_mem_singleton.mpr ⟨_, rfl, printable⟩
  | unit => exact isGraphic_unitEscape _
  | pair => exact List.forall_mem_append.mpr ⟨isGraphic_unitEscape _, isGraphic_unitEscape _⟩

theorem EscapesText.isGraphic {s e : Text} {p : List Piece} (h : EscapesText s e p) :
    Text.IsGraphic e := by
  induction h with
  | nil => exact List.forall_mem_nil _
  | cons first _ ih => exact List.forall_mem_append.mpr ⟨first.isGraphic, ih⟩

theorem Spells.isGraphic (h : Spells tok l) : Text.IsGraphic l := by
  cases h with
  | mark is => cases tok <;> cases is <;> exact List.forall_mem_singleton.mpr ⟨_, rfl, by decide⟩
  | integer i =>
    cases i with
    | ofNat n => exact isGraphic_ofNat n
    | negSucc n => exact List.forall_mem_cons.mpr ⟨⟨_, rfl, by decide⟩, isGraphic_ofNat _⟩
  | string escapes =>
    refine List.forall_mem_cons.mpr ⟨⟨_, rfl, by decide⟩, ?_⟩
    exact List.forall_mem_append.mpr
      ⟨escapes.isGraphic, List.forall_mem_singleton.mpr ⟨_, rfl, by decide⟩⟩
  | null => exact Text.isGraphic_ofString rfl
  | bool b => cases b <;> exact Text.isGraphic_ofString rfl

theorem Spaced.isScalar (h : Spaced toks t) : t.IsScalar := by
  induction h with
  | nil => exact List.forall_mem_nil _
  | blank blank _ ih =>
    refine List.forall_mem_cons.mpr ⟨?_, ih⟩
    simp only [isBlank, Bool.or_eq_true, decide_eq_true_eq] at blank
    rcases blank with ((is | is) | is) | is <;> exact ⟨_, is⟩
  | token spells _ ih =>
    refine List.forall_mem_append.mpr ⟨fun c mem => ?_, ih⟩
    obtain ⟨k, same, -⟩ := spells.isGraphic c mem
    exact ⟨k, same⟩

/-- Blanks stay blanks where the ends of lines are unified, and tokens stay as they are. -/
theorem Spaced.unifyNewlines (h : Spaced toks t) : Spaced toks t.unifyNewlines := by
  induction h with
  | nil => exact .nil
  | @blank c toks t blank _ ih =>
    by_cases feed : c = .scalar '\r'
    · subst feed
      rcases Text.unifyNewlines_return t with same | same
      · exact same ▸ .blank rfl ih
      · exact same ▸ ih
    · rw [Text.unifyNewlines_other feed]
      exact .blank blank ih
  | token spells _ ih =>
    rw [Text.unifyNewlines_append spells.isGraphic]
    exact .token spells ih

theorem Spaced.head?_ne_mark (h : Spaced toks t) : t.head? ≠ some (.scalar '\uFEFF') := by
  cases h with
  | nil => exact nofun
  | blank blank =>
    rintro ⟨⟩
    cases blank
  | token spells =>
    obtain ⟨c, r, rfl, -, other⟩ := spells.starts
    rintro ⟨⟩
    exact other rfl

end TypeLedger.Json
