import TypeLedger.Expr.Reader
import TypeLedger.Proofs.Expr.Viable
import TypeLedger.Proofs.Text.Position

/-! Where the syntax of a text is at fault. The machine stops at the first place up to which the
text can still become an expression, and says what stands there. -/
namespace TypeLedger.Expr

/-- The text starts with a token of this kind, which need not be the one that is read. -/
def Token.Matches (tok : Token) (t : Text) : Prop :=
  tok.lexeme <+: t ∧
  match tok with
  | .name l => IsName l
  | .int l => IsInt l
  | .string l => IsString l
  | _ => True

variable {s : State} {n m last p : Nat} {t source : Text} {tok : Token} {f : Fault}
  {toks taken : List (Located Token)}

/-- A token is longest, or a string shortest, in less of the text too. -/
theorem Token.Leads.of_append {before rest : Text}
    (h : tok.Leads (tok.lexeme ++ (before ++ rest))) : tok.Leads (tok.lexeme ++ before) := by
  have longer {m : Text} (starts : m <+: tok.lexeme ++ before) :
      m <+: tok.lexeme ++ (before ++ rest) := by
    rw [← List.append_assoc]
    exact starts.trans (List.prefix_append _ _)
  refine ⟨List.prefix_append _ _, ?_⟩
  obtain ⟨-, best⟩ := h
  cases tok with
  | name | int | string => exact ⟨best.1, fun m is starts => best.2 m is (longer starts)⟩
  | _ => trivial

theorem Token.Leads.matches (h : tok.Leads t) : tok.Matches t := by
  obtain ⟨starts, best⟩ := h
  refine ⟨starts, ?_⟩
  cases tok with
  | name | int | string => exact best.1
  | _ => trivial

/-- Where any token matches, one is read. -/
theorem Token.Matches.exists_leads (h : tok.Matches t) : ∃ tok : Token, tok.Leads t := by
  obtain ⟨⟨r, rfl⟩, is⟩ := h
  cases tok with
  | name l =>
    obtain ⟨c, tail, rfl, first, -⟩ := IsName.starts is
    exact ⟨_, leads_name_iff.mpr ⟨c, tail ++ r, rfl, first, rfl⟩⟩
  | int l =>
    obtain ⟨sign, digits, rfl, isSign, some, all⟩ := is
    have read := int?_append isSign some all r
    exact ⟨_, leads_int_iff.mpr (by rw [Token.lexeme, List.append_assoc]; exact read)⟩
  | string l =>
    obtain ⟨body, rfl, inside, free⟩ := isString_iff.mp is
    obtain ⟨tail, read, -⟩ := stringTail_complete inside free r
    exact ⟨_, leads_string_iff.mpr
      ⟨body ++ .scalar '"' :: r, tail, by simp [Token.lexeme], read, rfl⟩⟩
  | _ => exact ⟨_, List.prefix_append _ _, trivial⟩

theorem not_matches_iff : (∀ tok : Token, ¬tok.Matches t) ↔ ∀ tok : Token, ¬tok.Leads t := by
  constructor
  · intro none tok leads
    exact none tok leads.matches
  · intro none tok is
    obtain ⟨other, leads⟩ := is.exists_leads
    exact none other leads

/-- Why the machine goes no further with a text at an offset, if the token before is at `last`. -/
inductive State.Stops (s : State) (n last : Nat) : Text → Fault → Prop
  | character {c : CodePoint} {t : Text} : isBlank c = false →
      (∀ tok : Token, ¬tok.Leads (c :: t)) →
      Stops s n last (c :: t) ⟨.unexpectedCharacter c, n⟩
  | token {tok : Token} {t : Text} : tok.Leads t → s.step ⟨n, tok⟩ = none →
      Stops s n last t ⟨.unexpectedToken tok.lexeme, n⟩
  | ending : s.result? = none → Stops s n last [] ⟨.unexpectedEnd, last⟩

/-- The offset of the last token, or else the one given. -/
def lastOffset (first : Nat) (toks : List (Located Token)) : Nat :=
  (toks.getLast?.map Located.offset).getD first

theorem lastOffset_cons (tok : Located Token) :
    lastOffset last (tok :: toks) = lastOffset tok.offset toks := by
  rw [lastOffset, lastOffset, List.getLast?_cons]
  cases toks.getLast? <;> rfl

/-- A run that fails has taken some tokens, which are those of the text before the place where the
machine stops. -/
theorem State.stops_of_run (h : s.run (tokens n t).2 last (tokens n t).1 = .error f) :
    ∃ before rest taken s', t = before ++ rest ∧ Lexes n t taken rest ∧ Lexes n before taken [] ∧
      s.steps taken = some s' ∧ s'.Stops (n + before.length) (lastOffset last taken) rest f := by
  induction n, t using scan_induction generalizing s last with
  | finished n =>
    rw [tokens, run] at h
    cases result : s.result? with
    | some u =>
      rw [result] at h
      cases h
    | none =>
      rw [result] at h
      cases h
      exact ⟨[], [], [], s, rfl, .done, .done, rfl, .ending result⟩
  | blank n c t blank ih =>
    rw [tokens_blank blank] at h
    obtain ⟨before, rest, taken, s', rfl, lexes, alone, steps, stops⟩ := ih h
    refine ⟨c :: before, rest, taken, s', rfl, .blank blank lexes, .blank blank alone, steps, ?_⟩
    rwa [List.length_cons, Nat.add_comm before.length, ← Nat.add_assoc]
  | stuck n c t notBlank none =>
    rw [tokens_stuck notBlank none] at h
    cases h
    exact ⟨[], c :: t, [], s, rfl, .done, .done, rfl, .character notBlank none⟩
  | token n tok t leads ih =>
    rw [tokens_token leads, run] at h
    cases step : s.step ⟨n, tok⟩ with
    | none =>
      rw [step] at h
      cases h
      exact ⟨[], _, [], s, rfl, .done, .done, rfl, .token leads step⟩
    | some next =>
      rw [step] at h
      obtain ⟨before, rest, taken, s', rfl, lexes, alone, steps, stops⟩ := ih h
      refine ⟨tok.lexeme ++ before, rest, ⟨n, tok⟩ :: taken, s', (List.append_assoc ..).symm,
        .token leads lexes, .token leads.of_append alone, ?_, ?_⟩
      · rw [steps_cons, step]
        exact steps
      · rwa [List.length_append, ← Nat.add_assoc, lastOffset_cons]

/-- The text up to an offset splits into the tokens, which can go on to be an expression. -/
structure Reaches (source : Text) (toks : List (Located Token)) (p : Nat) : Prop where
  lexes : Lexes 0 source toks (source.drop p)
  alone : Lexes 0 (source.take p) toks []
  viable : Viable toks

/-- What is first at fault in a text: how it is said, and where it is. -/
inductive FirstProblem (source : Text) : Text → Position → Prop
  /-- No token starts at a place inside of the text. -/
  | character {toks p c place} : Reaches source toks p → source[p]? = some c →
      isBlank c = false → (∀ tok : Token, ¬tok.Matches (source.drop p)) →
      Position.After (source.take p) place →
      FirstProblem source (.concat ["unexpected character ", Quoted.quote [c],
        " in type expression ", Quoted.quote source]) place
  /-- No expression has the token after those before it. -/
  | token {toks p tok place} : Reaches source toks p → tok.Leads (source.drop p) →
      ¬Viable (toks ++ [⟨p, tok⟩]) → Position.After (source.take p) place →
      FirstProblem source (.concat ["unexpected ", Quoted.quote tok.lexeme,
        " in type expression ", Quoted.quote source]) place
  /-- The text ends where an expression cannot, which is blamed on its last token. -/
  | ending {toks tok place} : Reaches source toks source.length → ¬Sentence toks →
      toks.getLast? = some tok → Position.After (source.take tok.offset) place →
      FirstProblem source (.concat ["unexpected end of type expression ", Quoted.quote source])
        place
  /-- There is no token, and the first place is blamed. -/
  | noToken : Reaches source [] source.length → ¬Sentence [] →
      FirstProblem source (.concat ["unexpected end of type expression ", Quoted.quote source])
        ⟨1, 1⟩

theorem getElem?_of_append {before rest : Text} {c : CodePoint} (split : t = before ++ c :: rest) :
    t[before.length]? = some c := by
  rw [split, List.getElem?_append_right (Nat.le_refl _), Nat.sub_self]
  rfl

theorem firstProblem_of_parse (h : parse source = .error f) :
    FirstProblem source (f.message source) (f.position source) := by
  obtain ⟨before, rest, taken, s, split, lexes, alone, steps, stops⟩ := State.stops_of_run h
  have first : before = source.take before.length := by rw [split, List.take_left]
  have left : rest = source.drop before.length := by rw [split, List.drop_left]
  have reaches : Reaches source taken before.length :=
    ⟨left ▸ lexes, first ▸ alone, viable_iff.mpr ⟨s, steps⟩⟩
  rw [Nat.zero_add] at stops
  cases stops with
  | character notBlank none =>
    exact .character reaches (getElem?_of_append split) notBlank
      (left ▸ not_matches_iff.mpr none) (Position.after_ofOffset ..)
  | token leads step =>
    exact .token reaches (left ▸ leads) (not_viable_of_step steps step)
      (Position.after_ofOffset ..)
  | ending result =>
    rw [List.append_nil] at split
    subst split
    have open_ := not_sentence_of_result? steps result
    cases last : taken.getLast? with
    | none =>
      obtain rfl := List.getLast?_eq_none_iff.mp last
      exact .noToken reaches open_
    | some tok =>
      have place : lastOffset 0 taken = tok.offset := by rw [lastOffset, last]; rfl
      rw [place]
      exact .ending reaches open_ last (Position.after_ofOffset ..)

/-- What is read first in a text begins all of its tokens. -/
theorem Reaches.tokens_eq (h : Reaches source toks p) (inside : p ≤ source.length) :
    tokens 0 source = (toks ++ (tokens p (source.drop p)).1, (tokens p (source.drop p)).2) := by
  obtain ⟨before, split, same⟩ := h.lexes.tokens_eq
  have size : before.length = p := by
    have := congrArg List.length split
    rw [List.length_append, List.length_drop] at this
    omega
  rwa [Nat.zero_add, size] at same

theorem Reaches.eq_of_end (h : Reaches source toks source.length)
    (lexes : Lexes 0 source taken []) : taken = toks := by
  have same := h.tokens_eq (Nat.le_refl _)
  rw [lexes.tokens, List.drop_length, tokens, List.append_nil] at same
  exact congrArg Prod.fst same

theorem lt_length_of_leads (h : tok.Leads (source.drop p)) : p < source.length := by
  by_contra past
  obtain ⟨c, r, same, -⟩ := h.head
  obtain ⟨starts, -⟩ := h
  rw [List.drop_eq_nil_of_le (Nat.le_of_not_lt past), same] at starts
  exact absurd (List.prefix_nil.mp starts) (List.cons_ne_nil _ _)

theorem not_sentence_of_firstProblem {message : Text} {place : Position}
    (h : FirstProblem source message place) (lexes : Lexes 0 source taken []) :
    ¬Sentence taken := by
  cases h with
  | @character toks p c _ reaches found notBlank none =>
    obtain ⟨inside, rfl⟩ := List.getElem?_eq_some_iff.mp found
    have same := reaches.tokens_eq inside.le
    rw [List.drop_eq_getElem_cons inside] at none same
    rw [lexes.tokens, tokens_stuck notBlank (not_matches_iff.mp none)] at same
    cases congrArg Prod.snd same
  | @token toks p tok _ reaches leads refused =>
    rintro ⟨u, whole⟩
    have same := reaches.tokens_eq (lt_length_of_leads leads).le
    obtain ⟨r, next⟩ := leads.1
    rw [← next] at leads same
    rw [lexes.tokens, tokens_token leads] at same
    obtain ⟨rfl, -⟩ := Prod.mk.inj same
    exact refused ⟨_, u, by simpa using whole⟩
  | ending reaches open_ => exact reaches.eq_of_end lexes ▸ open_
  | noToken reaches open_ => exact reaches.eq_of_end lexes ▸ open_

/-- A text that is no expression of the grammar is refused for what is first at fault in it, and
nothing else is refused so. -/
theorem refused_for_first_problem (source : Text) :
    (¬∃ toks, Lexes 0 source toks [] ∧ Sentence toks) ↔
      ∃ f, read source = .error (.faulty f) ∧
        FirstProblem source (f.message source) (f.position source) := by
  constructor
  · intro none
    cases parsed : parse source with
    | ok u =>
      obtain ⟨toks, lexes, derives⟩ := parse_eq_ok_iff.mp parsed
      exact absurd ⟨toks, lexes, u, derives⟩ none
    | error f => exact ⟨f, by rw [read, parsed], firstProblem_of_parse parsed⟩
  · rintro ⟨f, -, problem⟩ ⟨toks, lexes, whole⟩
    exact not_sentence_of_firstProblem problem lexes whole

end TypeLedger.Expr
