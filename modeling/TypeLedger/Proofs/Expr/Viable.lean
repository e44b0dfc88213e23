import TypeLedger.Proofs.Expr.Parsing

/-! Beginnings of expressions. The machine goes on for as long as the tokens that it took begin some
expression: in every state there are tokens that bring the open brackets to their ends. -/
namespace TypeLedger.Expr

/-- The tokens of a whole expression. -/
def Sentence (toks : List (Located Token)) : Prop := ∃ u, Derives (.union u) toks

/-- The tokens begin an expression. -/
def Viable (toks : List (Located Token)) : Prop := ∃ more, Sentence (toks ++ more)

variable {s : State} {u : Union} {v : Arg} {f : Frame} {before : Option Union}
  {stack : List Frame} {toks : List (Located Token)} {tok : Located Token}

namespace State

/-- Some tokens bring the machine from the state to the end of an expression. -/
def Completes (s : State) : Prop :=
  ∃ more s', s.steps more = some s' ∧ s'.result?.isSome

theorem completes_of_step {s' : State} (tok : Located Token) (h : s.step tok = some s')
    (completes : s'.Completes) : s.Completes := by
  obtain ⟨more, last, steps, result⟩ := completes
  exact ⟨tok :: more, last, by rw [steps_cons, h]; exact steps, result⟩

/-- A complete union needs as many closing brackets as there are open ones. -/
theorem HoldsUnion.completes (h : HoldsUnion s u stack) : s.Completes := by
  induction stack generalizing s u with
  | nil => exact ⟨[], s, rfl, by rw [h.result?]; rfl⟩
  | cons f stack ih => exact completes_of_step ⟨0, .closeBracket⟩ (h.step nofun) (ih (.inl rfl))

theorem HoldsArg.completes (h : HoldsArg s v f stack) : s.Completes :=
  completes_of_step ⟨0, .closeBracket⟩ (h.step nofun nofun) (HoldsUnion.completes (.inl rfl))

/-- Where an atom has to follow, any name does. -/
theorem ExpectsAtom.completes (h : ExpectsAtom s before stack) : s.Completes :=
  completes_of_step _ (h.step_name 0 "None") holds_name.completes

theorem completes (s : State) : s.Completes := by
  cases s with
  | atom before stack => exact ExpectsAtom.completes (.inl rfl)
  | arg f stack => exact ExpectsAtom.completes (.inr ⟨f, stack, rfl, rfl, rfl⟩)
  | name before n stack => exact holds_name.completes
  | union u stack => exact HoldsUnion.completes (.inl rfl)
  | value v f stack => exact HoldsArg.completes (.inl rfl)

end State

open State

theorem sentence_iff : Sentence toks ↔
    ∃ s, State.start.steps toks = some s ∧ s.result?.isSome := by
  simp only [Sentence, ← steps_start_iff, Option.isSome_iff_exists]
  constructor
  · rintro ⟨u, s, steps, result⟩
    exact ⟨s, steps, u, result⟩
  · rintro ⟨s, steps, u, result⟩
    exact ⟨u, s, steps, result⟩

/-- The machine takes the tokens that begin an expression and no others. -/
theorem viable_iff : Viable toks ↔ ∃ s, State.start.steps toks = some s := by
  constructor
  · rintro ⟨more, whole⟩
    obtain ⟨last, steps, -⟩ := sentence_iff.mp whole
    rw [steps_append] at steps
    obtain ⟨s, first, -⟩ := Option.bind_eq_some_iff.mp steps
    exact ⟨s, first⟩
  · rintro ⟨s, first⟩
    obtain ⟨more, last, rest, result⟩ := s.completes
    exact ⟨more, sentence_iff.mpr ⟨last, by rw [steps_append, first]; exact rest, result⟩⟩

theorem not_sentence_of_result? (taken : State.start.steps toks = some s)
    (none : s.result? = .none) : ¬Sentence toks := by
  intro whole
  obtain ⟨last, steps, result⟩ := sentence_iff.mp whole
  obtain rfl := Option.some.inj (taken.symm.trans steps)
  rw [none] at result
  cases result

theorem not_viable_of_step (taken : State.start.steps toks = some s)
    (none : s.step tok = .none) : ¬Viable (toks ++ [tok]) := by
  rw [viable_iff, steps_append, taken, Option.bind_some, steps_cons, none]
  rintro ⟨last, steps⟩
  cases steps

end TypeLedger.Expr
