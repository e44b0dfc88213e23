import TypeLedger.Span
import TypeLedger.Proofs.Expr.Errors
import TypeLedger.Proofs.Expr.FirstProblem
import TypeLedger.Proofs.Expr.Overflow

/-! All that can come of reading a text: its type, a fault with a place in it, or the refusal of a
numeral. -/
namespace TypeLedger.Expr

/-- The place of a fault, from the line and the column that the reader reports. -/
def Fault.span (source : Text) (f : Fault) : Span :=
  .ofReported (some (.int (f.position source).line)) (some (.int (f.position source).column))

/-- The line and the column of a code point that is not ignored, after tokens of the text. It starts
a token, or none matches there. A text with nothing in it has its first place instead. -/
inductive Locates (source : Text) : Span → Prop
  | token {toks tok p c place} : Lexes 0 source toks (source.drop p) →
      Token.Leads tok (source.drop p) → source[p]? = some c → isBlank c = false →
      Position.After (source.take p) place → Locates source (.ofPosition none place)
  | character {toks p c place} : Lexes 0 source toks (source.drop p) →
      (∀ tok : Token, ¬tok.Matches (source.drop p)) → source[p]? = some c → isBlank c = false →
      Position.After (source.take p) place → Locates source (.ofPosition none place)
  | blank : (∀ c ∈ source, isBlank c = true) → Locates source (.ofPosition none ⟨1, 1⟩)

variable {source t rest : Text} {f : Fault} {toks : List (Located Token)} {tok : Located Token}
  {n : Nat}

theorem span_eq (source : Text) (f : Fault) :
    f.span source = .ofPosition none (f.position source) := by
  have known {k : Nat} (h : 1 ≤ k) :
      Coordinate.ofJson? (some (.int k)) = some (.number k) := if_pos (by omega)
  have line : 1 ≤ (f.position source).line := Position.one_le_line ..
  have column : 1 ≤ (f.position source).column := Position.one_le_column ..
  rw [Fault.span, Span.ofReported, known line, known column]
  rfl

/-- Each token stands at its offset. -/
theorem Lexes.stands (h : Lexes n t toks rest) : ∀ tok ∈ toks, ∃ before after taken,
    t = before ++ after ∧ tok.offset = n + before.length ∧ Lexes n t taken after ∧
      tok.item.Leads after := by
  induction h with
  | done => exact List.forall_mem_nil _
  | @blank n c t toks rest blank _ ih =>
    intro tok mem
    obtain ⟨before, after, taken, rfl, place, lexes, leads⟩ := ih tok mem
    refine ⟨c :: before, after, taken, rfl, ?_, .blank blank lexes, leads⟩
    rw [place, List.length_cons, Nat.add_right_comm, Nat.add_assoc]
  | @token n tok t toks rest first _ ih =>
    refine List.forall_mem_cons.mpr ⟨⟨[], _, [], rfl, rfl, .done, first⟩, fun later mem => ?_⟩
    obtain ⟨before, after, taken, rfl, place, lexes, leads⟩ := ih later mem
    refine ⟨tok.lexeme ++ before, after, ⟨n, tok⟩ :: taken, (List.append_assoc ..).symm, ?_,
      .token first lexes, leads⟩
    rw [place, List.length_append, Nat.add_assoc]

theorem locates_of_leads {before after : Text} {tok : Token} (split : source = before ++ after)
    (lexes : Lexes 0 source toks after) (leads : tok.Leads after)
    (place : f.offset = before.length) : Locates source (f.span source) := by
  obtain ⟨c, lexeme, same, notBlank⟩ := leads.head
  obtain ⟨r, found⟩ := leads.1
  have here : source = before ++ c :: (lexeme ++ r) := by
    rw [split, ← found, same, List.cons_append]
  have left : after = source.drop before.length := by rw [split, List.drop_left]
  rw [span_eq, Fault.position, place]
  exact .token (left ▸ lexes) (left ▸ leads) (getElem?_of_append here) notBlank
    (Position.after_ofOffset ..)

theorem locates_of_mem (lexes : Lexes 0 source toks []) (mem : tok ∈ toks)
    (place : f.offset = tok.offset) : Locates source (f.span source) := by
  obtain ⟨before, after, taken, split, offset, start, leads⟩ := lexes.stands tok mem
  rw [Nat.zero_add] at offset
  exact locates_of_leads split start leads (place.trans offset)

theorem Lexes.all_blank (h : Lexes n t [] []) : ∀ c ∈ t, isBlank c = true := by
  generalize none : ([] : List (Located Token)) = toks at h
  generalize left : ([] : Text) = rest at h
  induction h with
  | done => exact left ▸ List.forall_mem_nil _
  | blank blank _ ih => exact List.forall_mem_cons.mpr ⟨blank, ih none left⟩
  | token => cases none

theorem locates_of_parse (h : parse source = .error f) : Locates source (f.span source) := by
  obtain ⟨before, rest, taken, s, split, lexes, -, -, stops⟩ := State.stops_of_run h
  rw [Nat.zero_add] at stops
  cases stops with
  | @character c rest notBlank none =>
    have left : c :: rest = source.drop before.length := by rw [split, List.drop_left]
    rw [span_eq]
    exact .character (left ▸ lexes) (left ▸ not_matches_iff.mpr none) (getElem?_of_append split)
      notBlank (Position.after_ofOffset ..)
  | token leads => exact locates_of_leads split lexes leads rfl
  | ending =>
    cases last : taken.getLast? with
    | none =>
      obtain rfl := List.getLast?_eq_none_iff.mp last
      rw [span_eq]
      exact .blank lexes.all_blank
    | some tok =>
      exact locates_of_mem lexes (List.mem_of_getLast? last) (by rw [lastOffset, last]; rfl)

/-- A fault in the meaning of a text is blamed on one of its tokens. -/
theorem locates_of_meaning {u : Union} (lexes : Lexes 0 source toks [])
    (derives : Derives (.union u) toks) (h : u.meaning = .error (.faulty f)) :
    Locates source (f.span source) := by
  have blames : Blames (· ∈ toks) fun e => ∀ f, e = .faulty f → Locates source (f.span source) := by
    refine ⟨?_, ?_⟩
    · intro tok cause mem f same
      cases same
      exact locates_of_mem lexes mem rfl
    · intro n l _
      rw [intLiteral]
      split
      · exact errorsIn_ok
      · refine errorsIn_error ?_
        intro f same
        cases same
  exact blames.meaning derives (fun _ mem => mem) _ h f rfl

theorem locates_of_read (h : read source = .error (.faulty f)) :
    Locates source (f.span source) := by
  rw [read] at h
  cases parsed : parse source with
  | error f =>
    rw [parsed] at h
    cases h
    exact locates_of_parse parsed
  | ok u =>
    obtain ⟨toks, lexes, derives⟩ := parse_eq_ok_iff.mp parsed
    rw [parsed] at h
    exact locates_of_meaning lexes derives h

theorem read_eq_oversized_iff {o : Numeral.Oversized} : read source = .error (.oversized o) ↔
    ∃ toks u, Lexes 0 source toks [] ∧ Derives (.union u) toks ∧ u.Overflows o := by
  constructor
  · intro h
    rw [read] at h
    cases parsed : parse source with
    | error f =>
      rw [parsed] at h
      cases h
    | ok u =>
      obtain ⟨toks, lexes, derives⟩ := parse_eq_ok_iff.mp parsed
      rw [parsed] at h
      exact ⟨toks, u, lexes, derives, (derives.meaning_eq_oversized_iff lexes.spelt).mp h⟩
  · rintro ⟨toks, u, lexes, derives, overflows⟩
    rw [read, parse_eq_ok_iff.mpr ⟨toks, lexes, derives⟩]
    exact (derives.meaning_eq_oversized_iff lexes.spelt).mpr overflows

/-- A text has a type, or a fault that is located in it, or is refused for a numeral. It is refused
when it is an expression in which a numeral with too many digits is the first thing that is wrong. -/
theorem outcome_classified (source : Text) :
    ((∃ t, read source = .ok t) ∨
      (∃ f, read source = .error (.faulty f) ∧ Locates source (f.span source)) ∨
      ∃ o, read source = .error (.oversized o)) ∧
    ∀ o, read source = .error (.oversized o) ↔
      ∃ toks u, Lexes 0 source toks [] ∧ Derives (.union u) toks ∧ u.Overflows o := by
  refine ⟨?_, fun o => read_eq_oversized_iff⟩
  match found : read source with
  | .ok t => exact .inl ⟨t, rfl⟩
  | .error (.faulty f) => exact .inr (.inl ⟨f, rfl, locates_of_read found⟩)
  | .error (.oversized o) => exact .inr (.inr ⟨o, rfl⟩)

end TypeLedger.Expr
