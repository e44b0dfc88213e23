import TypeLedger.Proofs.Expr.Lexeme

/-! Splitting a text into tokens, as a judgment on the text with what is left of it. -/
namespace TypeLedger.Expr

variable {c : CodePoint} {l t rest : Text} {tok : Token} {toks more : List (Located Token)}
  {n : Nat}

/-- The text at an offset starts with the tokens, blanks apart, and goes on with the rest. A token is
checked with all that follows it. -/
inductive Lexes : Nat → Text → List (Located Token) → Text → Prop
  | done {n : Nat} {t : Text} : Lexes n t [] t
  | blank {n : Nat} {c : CodePoint} {t toks rest} : isBlank c = true → Lexes (n + 1) t toks rest →
      Lexes n (c :: t) toks rest
  | token {n : Nat} {tok : Token} {t toks rest} : tok.Leads (tok.lexeme ++ t) →
      Lexes (n + tok.lexeme.length) t toks rest →
      Lexes n (tok.lexeme ++ t) (⟨n, tok⟩ :: toks) rest

theorem Lexes.lexeme_infix (h : Lexes n t toks rest) :
    ∀ tok ∈ toks, tok.item.lexeme <:+: t := by
  induction h with
  | done => exact List.forall_mem_nil _
  | blank _ _ ih => exact fun tok mem => (ih tok mem).trans (List.suffix_cons _ _).isInfix
  | token _ _ ih =>
    refine List.forall_mem_cons.mpr ⟨(List.prefix_append _ _).isInfix, fun tok mem => ?_⟩
    exact (ih tok mem).trans (List.suffix_append _ _).isInfix

theorem Lexes.lexeme_subset (h : Lexes n t toks rest) :
    ∀ tok ∈ toks, tok.item.lexeme ⊆ t :=
  fun tok mem => (h.lexeme_infix tok mem).subset

theorem IsInt.starts (h : IsInt l) : ∃ c r, l = c :: r ∧
    (c = .scalar '+' ∨ c = .scalar '-' ∨ Numeral.isDigit c = true) := by
  obtain ⟨s, digits, rfl, hs, some, all⟩ := h
  obtain ⟨d, ds, rfl⟩ := List.exists_cons_of_ne_nil some
  rcases hs with rfl | rfl | rfl
  · exact ⟨d, ds, rfl, .inr (.inr (all d List.mem_cons_self))⟩
  · exact ⟨_, d :: ds, rfl, .inl rfl⟩
  · exact ⟨_, d :: ds, rfl, .inr (.inl rfl)⟩

theorem token?_of_startsName (h : startsName c = true) :
    token? (c :: t) = some (.name (c :: nameTail t)) := by
  have other (d : CodePoint) (hd : startsName d = false) : c ≠ d := by
    rintro rfl
    exact Bool.noConfusion (h.symm.trans hd)
  rw [token?, if_neg (other _ (by decide)), if_neg (other _ (by decide)),
    if_neg (other _ (by decide)), if_neg (other _ (by decide)), if_neg (other _ (by decide)),
    if_pos h]

theorem token?_of_int? (h : int? t = some l) : token? t = some (.int l) := by
  obtain ⟨found, starts⟩ := isInt_of_int? h
  obtain ⟨c, r, rfl, first⟩ := found.starts
  obtain ⟨_, rfl⟩ := starts
  have other (d : CodePoint) (hd : d ≠ .scalar '+' ∧ d ≠ .scalar '-' ∧ Numeral.isDigit d = false) :
      c ≠ d := by
    rintro rfl
    simp [hd] at first
  have noName : ¬startsName c = true := by
    rcases first with rfl | rfl | digit
    · decide
    · decide
    · simp [startsName_of_isDigit digit]
  rw [List.cons_append, token?, if_neg (other _ (by decide)), if_neg (other _ (by decide)),
    if_neg (other _ (by decide)), if_neg (other _ (by decide)), if_neg (other _ (by decide)),
    if_neg noName, ← List.cons_append, h]
  rfl

theorem token?_eq_some_iff : token? t = some tok ↔ tok.Leads t := by
  constructor
  · intro h
    cases t with
    | nil => cases h
    | cons c t =>
      simp only [token?] at h
      split_ifs at h with bar opens closes comma quote letter
      · cases h
        exact ⟨by simp [bar, Token.lexeme, Text.ofString], trivial⟩
      · cases h
        exact ⟨by simp [opens, Token.lexeme, Text.ofString], trivial⟩
      · cases h
        exact ⟨by simp [closes, Token.lexeme, Text.ofString], trivial⟩
      · cases h
        exact ⟨by simp [comma, Token.lexeme, Text.ofString], trivial⟩
      · obtain ⟨tail, read, rfl⟩ := Option.map_eq_some_iff.mp h
        exact quote ▸ leads_string_iff.mpr ⟨t, tail, rfl, read, rfl⟩
      · cases h
        exact leads_name_iff.mpr ⟨c, t, rfl, letter, rfl⟩
      · obtain ⟨l, read, rfl⟩ := Option.map_eq_some_iff.mp h
        exact leads_int_iff.mpr read
  · intro h
    cases tok with
    | name l =>
      obtain ⟨c, rest, rfl, first, rfl⟩ := leads_name_iff.mp h
      exact token?_of_startsName first
    | int l => exact token?_of_int? (leads_int_iff.mp h)
    | string l =>
      obtain ⟨rest, tail, rfl, read, rfl⟩ := leads_string_iff.mp h
      simp [token?, read]
    | _ =>
      obtain ⟨⟨r, rfl⟩, _⟩ := h
      rfl

theorem Token.Leads.head (h : tok.Leads t) : ∃ c r, tok.lexeme = c :: r ∧ isBlank c = false := by
  have printable (c : CodePoint) (hc : startsName c = true ∨ c = .scalar '+' ∨ c = .scalar '-' ∨
      Numeral.isDigit c = true) : isBlank c = false := by
    rw [Bool.eq_false_iff]
    intro blank
    simp only [isBlank, Bool.or_eq_true, decide_eq_true_eq] at blank
    rcases blank with (((rfl | rfl) | rfl) | rfl) | rfl <;> revert hc <;> decide
  cases tok with
  | name l =>
    obtain ⟨c, tail, rfl, first, _⟩ := IsName.starts h.2.1
    exact ⟨c, tail, rfl, printable c (.inl first)⟩
  | int l =>
    obtain ⟨c, r, rfl, first⟩ := IsInt.starts h.2.1
    exact ⟨c, r, rfl, printable c (.inr first)⟩
  | string l =>
    obtain ⟨_, tail, _, _, rfl⟩ := leads_string_iff.mp h
    exact ⟨_, tail, rfl, rfl⟩
  | _ => exact ⟨_, _, rfl, rfl⟩

theorem tokens_blank (h : isBlank c = true) : tokens n (c :: t) = tokens (n + 1) t := by
  rw [tokens, if_pos h]

theorem tokens_token (h : tok.Leads (tok.lexeme ++ t)) : tokens n (tok.lexeme ++ t) =
    (⟨n, tok⟩ :: (tokens (n + tok.lexeme.length) t).1, (tokens (n + tok.lexeme.length) t).2) := by
  have scanned := token?_eq_some_iff.mpr h
  obtain ⟨c, r, same, notBlank⟩ := h.head
  rw [same, List.cons_append] at scanned ⊢
  rw [tokens, if_neg (by simp [notBlank]), scanned]
  simp [same]

theorem tokens_stuck (notBlank : isBlank c = false) (none : ∀ tok : Token, ¬tok.Leads (c :: t)) :
    tokens n (c :: t) = ([], .stuck n c) := by
  have unread : token? (c :: t) = .none :=
    Option.eq_none_iff_forall_ne_some.mpr fun tok => mt token?_eq_some_iff.mp (none tok)
  rw [tokens, if_neg (by simp [notBlank]), unread]

/-- Induction over a text as the scanner takes it. -/
theorem scan_induction {motive : Nat → Text → Prop} (finished : ∀ n, motive n [])
    (blank : ∀ n c t, isBlank c = true → motive (n + 1) t → motive n (c :: t))
    (stuck : ∀ n c t, isBlank c = false → (∀ tok : Token, ¬tok.Leads (c :: t)) → motive n (c :: t))
    (token : ∀ n (tok : Token) t, tok.Leads (tok.lexeme ++ t) →
      motive (n + tok.lexeme.length) t → motive n (tok.lexeme ++ t)) (n : Nat) (t : Text) :
    motive n t := by
  fun_induction tokens n t with
  | case1 n => exact finished n
  | case2 n c t isBlank ih => exact blank n c t isBlank ih
  | case3 n c t notBlank unread =>
    have none (tok : Token) : ¬tok.Leads (c :: t) := fun leads => by
      rw [token?_eq_some_iff.mpr leads] at unread
      cases unread
    exact stuck n c t (Bool.eq_false_iff.mpr notBlank) none
  | case4 n c t _ tok scanned size others ih =>
    have leads := token?_eq_some_iff.mp scanned
    obtain ⟨d, lexeme, same, _⟩ := leads.head
    obtain ⟨r, text⟩ := leads.1
    have left : t.drop (size - 1) = r := by
      rw [same, List.cons_append] at text
      rw [← (List.cons.inj text).2]
      simp [size, same]
    rw [left] at ih
    rw [← text] at leads ⊢
    exact token n tok r leads ih

/-- The tokens of a text start with those that are read first. -/
theorem Lexes.tokens_eq (h : Lexes n t toks rest) : ∃ before, t = before ++ rest ∧
    tokens n t = (toks ++ (tokens (n + before.length) rest).1,
      (tokens (n + before.length) rest).2) := by
  induction h with
  | done => exact ⟨[], rfl, rfl⟩
  | @blank n c t toks rest hc _ ih =>
    obtain ⟨before, rfl, ih⟩ := ih
    refine ⟨c :: before, rfl, ?_⟩
    rw [tokens_blank hc, ih, List.length_cons, Nat.add_right_comm, Nat.add_assoc]
  | @token n tok t toks rest leads _ ih =>
    obtain ⟨before, rfl, ih⟩ := ih
    refine ⟨tok.lexeme ++ before, (List.append_assoc ..).symm, ?_⟩
    rw [tokens_token leads, ih, List.length_append, Nat.add_assoc, List.cons_append]

theorem Lexes.tokens (h : Lexes n t toks []) : tokens n t = (toks, .finished) := by
  obtain ⟨before, -, same⟩ := h.tokens_eq
  rw [same, Expr.tokens, List.append_nil]

theorem lexes_of_tokens (h : tokens n t = (toks, .finished)) : Lexes n t toks [] := by
  induction n, t using scan_induction generalizing toks with
  | finished =>
    rw [tokens] at h
    cases h
    exact .done
  | blank n c t blank ih => exact .blank blank (ih (tokens_blank blank ▸ h))
  | stuck n c t notBlank none =>
    rw [tokens_stuck notBlank none] at h
    cases h
  | token n tok t leads ih =>
    rw [tokens_token leads] at h
    obtain ⟨rfl, stop⟩ := Prod.mk.inj h
    exact .token leads (ih (Prod.ext rfl stop))

/-- A text is read to its end exactly when it splits into tokens with nothing left. -/
theorem tokens_eq_iff : tokens n t = (toks, .finished) ↔ Lexes n t toks [] :=
  ⟨lexes_of_tokens, Lexes.tokens⟩

end TypeLedger.Expr
