import TypeLedger.Proofs.Json.Decoding
import TypeLedger.Proofs.Json.Escaping

/-! Reading a string that was written with escapes. What is read is the text with its split pairs
joined, which is the text itself where there are none. -/
namespace TypeLedger.Json

open CodePoint (high low joinPair)

variable {c d : CodePoint} {s t escaped : Text} {pieces : List Piece} {o n : Nat}

theorem readPieces_short (h : shortEscape? d = some c) :
    readPieces o n (.scalar '\\' :: d :: t) =
      (fun r => (.plain c :: r.1, r.2 + 2)) <$> readPieces o (n + 2) t := by
  have notUnit : d ≠ .scalar 'u' := by
    rintro rfl
    cases h
  rw [readPieces]
  · rw [h]
  · exact fun _ _ _ _ _ _ unit => absurd unit notUnit
  · exact notUnit

theorem readPieces_plain (printable : 0x20 ≤ c.toNat) (quote : c ≠ .scalar '"')
    (slash : c ≠ .scalar '\\') : readPieces o n (c :: t) =
      (fun r => (.plain c :: r.1, r.2 + 1)) <$> readPieces o (n + 1) t := by
  rw [readPieces]
  · rw [if_neg (by omega)]
  · exact quote
  · exact fun bad => absurd bad slash
  · exact fun _ _ _ _ _ _ bad => absurd bad slash
  · exact fun _ bad => absurd bad slash
  · exact fun _ _ bad => absurd bad slash

theorem readPieces_unit (h : c.toNat < 0x10000) (some : t ≠ []) :
    readPieces o n (unitEscape c.toNat ++ t) =
      (fun r => (.unit c :: r.1, r.2 + 6)) <$> readPieces o (n + 6) t := by
  obtain ⟨next, rest, rfl⟩ := List.exists_cons_of_ne_nil some
  simp only [unitEscape_eq, List.cons_append, List.nil_append]
  rw [readPieces, unit?_digits h, CodePoint.ofNat_toNat]

theorem Escapes.readPieces (h : Escapes c escaped pieces) (some : t ≠ []) :
    readPieces o n (escaped ++ t) =
      (fun r => (pieces ++ r.1, r.2 + escaped.length)) <$> readPieces o (n + escaped.length) t := by
  cases h with
  | short h => exact readPieces_short h
  | plain printable quote slash =>
    exact readPieces_plain printable (by simpa using quote) (by simpa using slash)
  | unit small =>
    rw [readPieces_unit small some, unitEscape_eq]
    rfl
  | @pair h l =>
    have h₁ : (high h).toNat < 0x10000 := by simp only [CodePoint.toNat]; omega
    have h₂ : (low l).toNat < 0x10000 := by simp only [CodePoint.toNat]; omega
    rw [List.append_assoc, readPieces_unit h₁ (by simp [unitEscape_eq]), readPieces_unit h₂ some,
      ← comp_map]
    simp only [unitEscape_eq]
    rfl

/-- A text, its escaped form and the pieces that this is read as. -/
inductive EscapesText : Text → Text → List Piece → Prop
  | nil : EscapesText [] [] []
  | cons {c : CodePoint} {s e f : Text} {p q : List Piece} : Escapes c e p → EscapesText s f q →
      EscapesText (c :: s) (e ++ f) (p ++ q)

theorem exists_escapesText (s : Text) : ∃ pieces, EscapesText s (s.flatMap escape) pieces := by
  induction s with
  | nil => exact ⟨[], .nil⟩
  | cons c s ih =>
    obtain ⟨p, first⟩ := exists_escapes c
    obtain ⟨q, rest⟩ := ih
    exact ⟨p ++ q, .cons first rest⟩

theorem EscapesText.readPieces (h : EscapesText s escaped pieces) (t : Text) :
    readPieces o n (escaped ++ .scalar '"' :: t) = .ok (pieces, escaped.length + 1) := by
  induction h generalizing n with
  | nil => rfl
  | cons first _ ih =>
    rw [List.append_assoc, first.readPieces (by simp), ih]
    simp only [Functor.map, Except.map, List.length_append, Except.ok.injEq, Prod.mk.injEq, true_and]
    omega

/-- A piece that is a low half by its number is read of a low half alone. -/
theorem EscapesText.head?_low (h : EscapesText s escaped pieces) {l : Fin 1024} :
    pieces.head? = some (.unit (low l)) ↔ s.head? = some (low l) := by
  cases h with
  | nil => simp
  | cons first _ =>
    cases first with
    | short | plain | unit => simp
    | pair => simp [joinPair]

theorem joinPieces_unit (h : ∀ b l, c = high b → pieces.head? ≠ some (.unit (low l))) :
    joinPieces (.unit c :: pieces) = c :: joinPieces pieces := by
  rw [joinPieces]
  rintro b l rest rfl rfl
  exact h b l rfl rfl

theorem EscapesText.joinPieces (h : EscapesText s escaped pieces) :
    joinPieces pieces = s.joinPairs := by
  induction h with
  | nil => rfl
  | @cons c s e f p q first rest ih =>
    cases first with
    | short | plain | pair =>
      rw [Text.joinPairs_other (by simp [joinPair]), ← ih]
      rfl
    | unit =>
      by_cases split : ∃ b l, c = high b ∧ s.head? = some (low l)
      · obtain ⟨b, l, rfl, next⟩ := split
        obtain ⟨q, rfl⟩ := List.head?_eq_some_iff.mp (rest.head?_low.mpr next)
        obtain ⟨s, rfl⟩ := List.head?_eq_some_iff.mp next
        rw [Text.joinPairs_other (by simp)] at ih
        rw [Text.joinPairs, ← (List.cons.inj ih).2]
        rfl
      · rw [List.singleton_append, joinPieces_unit, ih, Text.joinPairs_cons]
        · rintro b l rest rfl rfl
          exact split ⟨b, l, rfl, rfl⟩
        · rintro b l rfl next
          exact split ⟨b, l, rfl, rest.head?_low.mp next⟩

theorem EscapesText.readBody (h : EscapesText s escaped pieces) (t : Text) :
    readBody o (escaped ++ .scalar '"' :: t) = .ok (s.joinPairs, escaped.length + 1) := by
  rw [Json.readBody, h.readPieces, ← h.joinPieces]
  rfl

theorem readBody_escapes (s t : Text) : readBody o (s.flatMap escape ++ .scalar '"' :: t) =
    .ok (s.joinPairs, (s.flatMap escape).length + 1) := by
  obtain ⟨pieces, h⟩ := exists_escapesText s
  exact h.readBody t

/-- A string that is written is read with its split pairs joined. -/
theorem readString_quote (s : Text) : readString (quote s) = .ok s.joinPairs := by
  have body : readBody 0 (s.flatMap escape ++ [.scalar '"']) =
      .ok (s.joinPairs, (s.flatMap escape ++ [CodePoint.scalar '"']).length) := by
    rw [readBody_escapes, List.length_append, List.length_singleton]
  rw [readString, quote, List.append_assoc, List.singleton_append, read_of_readBody body]

end TypeLedger.Json
