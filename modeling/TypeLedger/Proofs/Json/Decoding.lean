import TypeLedger.Json.Reader
import TypeLedger.Proofs.Except
import TypeLedger.Proofs.Text.SplitPair

/-! Decoding a string in which halves of surrogate pairs are written by their numbers alone. Halves
that are read next to each other are joined, so none are left apart. -/
namespace TypeLedger.Json

variable {c : CodePoint} {t text body : Text} {pieces : List Piece} {o n k : Nat}

/-- The code point that a piece is read as, before halves are joined. -/
def Piece.codePoint : Piece → CodePoint
  | plain c | unit c => c

/-- All halves in the pieces are written by number. -/
def UnitHalves (pieces : List Piece) : Prop := ∀ c, .plain c ∈ pieces → ∃ k, c = .scalar k

theorem joinPieces_eq (h : UnitHalves pieces) :
    joinPieces pieces = Text.joinPairs (pieces.map Piece.codePoint) := by
  fun_induction joinPieces pieces with
  | case1 => rfl
  | case2 b l rest ih =>
    rw [ih fun c mem => h c (List.mem_cons_of_mem _ (List.mem_cons_of_mem _ mem))]
    rfl
  | case3 c rest ih =>
    obtain ⟨k, rfl⟩ := h c List.mem_cons_self
    rw [ih fun c mem => h c (List.mem_cons_of_mem _ mem)]
    exact (Text.joinPairs_other (by simp)).symm
  | case4 c rest apart ih =>
    rw [ih fun c mem => h c (List.mem_cons_of_mem _ mem)]
    refine (Text.joinPairs_cons fun b l others high low => ?_).symm
    -- A low half after a high one would have been written by number as well.
    obtain ⟨p, more, rfl, point, _⟩ := List.map_eq_cons_iff.mp low
    cases p with
    | unit c =>
      obtain rfl : c = .low l := point
      exact apart b l more rfl high
    | plain c =>
      obtain ⟨k, rfl⟩ := h c (List.mem_cons_of_mem _ List.mem_cons_self)
      cases point

theorem not_hasSplitPair_joinPieces (h : UnitHalves pieces) : ¬(joinPieces pieces).HasSplitPair :=
  joinPieces_eq h ▸ Text.not_hasSplitPair_joinPairs _

theorem shortEscape?_scalar {d : CodePoint} (h : shortEscape? c = some d) : ∃ k, d = .scalar k := by
  unfold shortEscape? at h
  split at h <;> cases h <;> exact ⟨_, rfl⟩

theorem unitHalves_cons {p : Piece} (first : ∀ c, p = .plain c → ∃ k, c = .scalar k)
    (rest : UnitHalves pieces) : UnitHalves (p :: pieces) := by
  intro c mem
  rcases List.mem_cons.mp mem with same | mem
  · exact first c same.symm
  · exact rest c mem

/-- What stands for itself in a text without halves is none, and no short escape stands for one. -/
theorem unitHalves_of_readPieces (h : readPieces o n body = .ok (pieces, k))
    (scalar : Text.IsScalar body) : UnitHalves pieces := by
  fun_induction readPieces o n body generalizing pieces k with
  | case1 | case3 | case4 | case6 | case7 | case9 => cases h
  | case2 =>
    cases h
    exact fun _ => nofun
  | case5 offset a b c d next rest u number ih =>
    obtain ⟨r, read, same⟩ := map_eq_ok_iff.mp h
    obtain ⟨rfl, rfl⟩ := Prod.mk.inj same
    exact unitHalves_cons (fun _ => nofun) (ih read (scalar.drop 6))
  | case8 offset c rest _ _ e short ih =>
    obtain ⟨r, read, same⟩ := map_eq_ok_iff.mp h
    obtain ⟨rfl, rfl⟩ := Prod.mk.inj same
    refine unitHalves_cons ?_ (ih read (scalar.drop 2))
    rintro _ ⟨⟩
    exact shortEscape?_scalar short
  | case10 offset c rest _ _ _ _ _ _ ih =>
    obtain ⟨r, read, same⟩ := map_eq_ok_iff.mp h
    obtain ⟨rfl, rfl⟩ := Prod.mk.inj same
    refine unitHalves_cons ?_ (ih read (scalar.drop 1))
    rintro _ ⟨⟩
    exact scalar c List.mem_cons_self

/-- Nothing follows a complete value. -/
theorem State.run_complete (v : Value) (stop : Located Stop) (toks : List (Located Token)) :
    (∀ limit, (complete v []).run limit stop toks = .ok v) ∨
      ∃ fault, ∀ limit, (complete v []).run limit stop toks = .error (.malformed fault) := by
  cases toks with
  | nil =>
    obtain ⟨o, reason⟩ := stop
    cases reason with
    | finished => exact .inl fun _ => rfl
    | stuck | badString => exact .inr ⟨_, fun _ => rfl⟩
  | cons => exact .inr ⟨_, fun _ => rfl⟩

theorem State.eq_of_run_complete {limit : Option Nat} {stop : Located Stop}
    {toks : List (Located Token)} {v w : Value} (h : (complete v []).run limit stop toks = .ok w) :
    w = v := by
  rcases run_complete v stop toks with found | ⟨_, fails⟩
  · cases (found limit).symm.trans h
    rfl
  · cases (fails limit).symm.trans h

/-- A quoted text is read as a string or not at all, whatever the limit on numerals is. -/
theorem read_quoted (body : Text) :
    (∃ t, ∀ limit, read limit (.scalar '"' :: body) = .ok (.string t)) ∨
      ∃ fault, ∀ limit, read limit (.scalar '"' :: body) = .error (.malformed fault) := by
  have noMark : ¬(CodePoint.scalar '"' :: body).head? = some (.scalar '\uFEFF') := by simp
  simp only [read, if_neg noMark]
  rw [tokens, if_neg (by decide), token]
  cases readBody 0 body with
  | error => exact .inr ⟨_, fun _ => rfl⟩
  | ok r => exact (State.run_complete (.string r.1) _ _).imp_left fun found => ⟨r.1, found⟩

/-- A text that ends with its body is the string that the body writes. -/
theorem read_of_readBody (h : readBody 0 body = .ok (t, body.length)) (limit : Option Nat) :
    read limit (.scalar '"' :: body) = .ok (.string t) := by
  have tok : token 0 (.scalar '"' :: body) = .ok (.string t, body.length + 1) := by
    rw [token, h]
  have scanned : tokens 0 (.scalar '"' :: body) =
      ([⟨0, .string t⟩], ⟨body.length + 1, .finished⟩) := by
    rw [tokens, if_neg (by decide), tok]
    simp [tokens]
  rw [read, if_neg (by simp), scanned]
  rfl

theorem read_of_readBody_error {fault : BodyFault} (h : readBody 0 body = .error fault)
    (limit : Option Nat) : read limit (.scalar '"' :: body) =
      .error (.malformed ⟨.body fault.cause, fault.offset⟩) := by
  have tok : token 0 (.scalar '"' :: body) = .error (.badString fault) := by
    rw [token, h]
  rw [read, if_neg (by simp), tokens, if_neg (by decide), tok]
  rfl

/-- A quoted text that is read as a string is read by its body alone. -/
theorem readBody_of_readString (h : readString (.scalar '"' :: body) = .ok t) :
    ∃ n, readBody 0 body = .ok (t, n) := by
  rw [readString, read, if_neg (by simp), tokens, if_neg (by decide), token] at h
  cases found : readBody 0 body with
  | error fault =>
    rw [found] at h
    cases h
  | ok r =>
    obtain ⟨s, n⟩ := r
    rw [found] at h
    split at h
    next run =>
      obtain rfl := Except.ok.inj h
      cases State.eq_of_run_complete run
      exact ⟨n, rfl⟩
    next => cases h
    next => cases h

theorem not_hasSplitPair_of_readString (h : readString (.scalar '"' :: body) = .ok t)
    (scalar : Text.IsScalar body) : ¬t.HasSplitPair := by
  obtain ⟨n, found⟩ := readBody_of_readString h
  obtain ⟨⟨pieces, k⟩, read, same⟩ := map_eq_ok_iff.mp found
  obtain ⟨rfl, rfl⟩ := Prod.mk.inj same
  exact not_hasSplitPair_joinPieces (unitHalves_of_readPieces read scalar)

end TypeLedger.Json
