import TypeLedger.Expr.Parser
import TypeLedger.Proofs.Expr.Grammar
import TypeLedger.Proofs.Expr.Lexing

/-! The machine of the parser and the grammar. `Reads` says which tokens lead to a state, phrase by
phrase; every step preserves it, and every phrase of the grammar takes the machine on. -/
namespace TypeLedger.Expr

namespace State

def steps (s : State) (toks : List (Located Token)) : Option State :=
  toks.foldlM (fun s tok => s.step tok) s

theorem steps_append (s : State) (w v : List (Located Token)) :
    s.steps (w ++ v) = (s.steps w).bind (·.steps v) :=
  List.foldlM_append

theorem steps_cons (s : State) (tok : Located Token) (w : List (Located Token)) :
    s.steps (tok :: w) = (s.step tok).bind (·.steps w) :=
  List.foldlM_cons

theorem run_eq_ok_iff {s : State} {stop : Stop} {last : Nat} {toks : List (Located Token)}
    {u : Union} :
    s.run stop last toks = .ok u ↔
      stop = .finished ∧ ∃ s', s.steps toks = some s' ∧ s'.result? = some u := by
  induction toks generalizing s last with
  | nil =>
    cases stop with
    | stuck n c => simp [run]
    | finished =>
      cases h : s.result? <;> simp [run, steps, h]
  | cons tok rest ih =>
    rw [run, steps_cons]
    cases s.step tok with
    | none => simp
    | some next => exact ih

/-- The union `u` has been read and ends here or goes on. -/
def HoldsUnion (s : State) (u : Union) (stack : List Frame) : Prop :=
  s = union u stack ∨ ∃ before n, s = name before n stack ∧ u = .extend before (.mk n [])

/-- The argument `v` of the frame `f` has been read and ends here or goes on. -/
def HoldsArg (s : State) (v : Arg) (f : Frame) (stack : List Frame) : Prop :=
  s = value v f stack ∨ ∃ u, v = u.toArg ∧ HoldsUnion s u (f :: stack)

/-- An atom has to follow, or may follow, after the part `before` of its union. -/
def ExpectsAtom (s : State) (before : Option Union) (stack : List Frame) : Prop :=
  s = atom before stack ∨ ∃ f rest, s = arg f rest ∧ before = none ∧ stack = f :: rest

variable {s : State} {u : Union} {stack : List Frame} {v : Arg} {f : Frame} {before : Option Union}
  {tok : Located Token}

theorem holds_name {n : Located Text} :
    HoldsUnion (name before n stack) (.extend before (.mk n [])) stack :=
  .inr ⟨before, n, rfl, rfl⟩

theorem HoldsUnion.step (h : HoldsUnion s u stack) (other : tok.item ≠ .openBracket) :
    s.step tok = afterAtom u stack tok.item := by
  obtain ⟨n, t⟩ := tok
  rcases h with rfl | ⟨before, name, rfl, rfl⟩
  · rfl
  · cases t <;> first | rfl | exact absurd rfl other

theorem HoldsUnion.result? (h : HoldsUnion s u []) : s.result? = some u := by
  rcases h with rfl | ⟨before, name, rfl, rfl⟩
  · rfl
  · rfl

theorem holds_of_result? (h : s.result? = some u) : HoldsUnion s u [] := by
  cases s with
  | name before n stack =>
    cases stack with
    | nil => exact Option.some.inj h ▸ holds_name
    | cons => contradiction
  | union u' stack =>
    cases stack with
    | nil => exact .inl (congrArg (union · []) (Option.some.inj h))
    | cons => contradiction
  | atom | arg | value => contradiction

theorem HoldsArg.step (h : HoldsArg s v f stack) (open_ : tok.item ≠ .openBracket)
    (bar : tok.item ≠ .bar) : s.step tok = afterArg v f stack tok.item := by
  rcases h with rfl | ⟨u, rfl, h⟩
  · rfl
  · rw [h.step open_]
    obtain ⟨n, t⟩ := tok
    cases t <;> first | rfl | exact absurd rfl bar

theorem ExpectsAtom.step_name (h : ExpectsAtom s before stack) (n : Nat) (l : Text) :
    s.step ⟨n, .name l⟩ = some (name before ⟨n, l⟩ stack) := by
  rcases h with rfl | ⟨f, rest, rfl, rfl, rfl⟩
  · rfl
  · rfl

end State

open State

/-- What the tokens of a phrase do to the states in which the phrase can start. -/
def Phrase.Runs : Phrase → List (Located Token) → Prop
  | union u, w => ∀ s stack, ExpectsAtom s none stack →
      ∃ s', s.steps w = some s' ∧ HoldsUnion s' u stack
  | moreAtoms atoms, w => ∀ s u stack, HoldsUnion s u stack →
      ∃ s', s.steps w = some s' ∧ HoldsUnion s' ⟨u.first, u.rest ++ atoms⟩ stack
  | atom a, w => ∀ s before stack, ExpectsAtom s before stack →
      ∃ s', s.steps w = some s' ∧ HoldsUnion s' (.extend before a) stack
  | brackets args, w => ∀ before n stack,
      (State.name before n stack).steps w = some (.union (.extend before (.mk n args)) stack)
  | moreArgs args, w => ∀ s v f stack, HoldsArg s v f stack →
      ∃ s' v' before', s.steps w = some s' ∧ HoldsArg s' v' { f with args := before' } stack ∧
        before' ++ [v'] = f.args ++ v :: args
  | arg v, w => ∀ f stack, ∃ s', (State.arg f stack).steps w = some s' ∧ HoldsArg s' v f stack

theorem Derives.runs {phrase : Phrase} {toks : List (Located Token)} (h : Derives phrase toks) :
    phrase.Runs toks := by
  induction h with
  | union _ _ first rest =>
    intro s stack hs
    obtain ⟨s', hw, h'⟩ := first s none stack hs
    obtain ⟨s'', hv, h''⟩ := rest s' _ stack h'
    exact ⟨s'', by simp [steps_append, hw, hv], h''⟩
  | noAtoms =>
    intro s u stack hs
    exact ⟨s, rfl, by simpa using hs⟩
  | @bar n a atoms w v _ _ first rest =>
    intro s u stack hs
    have hb : s.step ⟨n, .bar⟩ = some (.atom (some u) stack) := hs.step (by simp)
    obtain ⟨s', hw, h'⟩ := first _ (some u) stack (.inl rfl)
    obtain ⟨s'', hv, h''⟩ := rest s' _ stack h'
    exact ⟨s'', by simp [steps_cons, steps_append, hb, hw, hv], by simpa [Union.extend] using h''⟩
  | @name n l =>
    intro s before stack hs
    exact ⟨_, by rw [steps_cons, hs.step_name]; rfl, holds_name⟩
  | @applied n l args w _ inner =>
    intro s before stack hs
    exact ⟨_, by rw [steps_cons, hs.step_name]; exact inner before _ stack, .inl rfl⟩
  | @brackets n m a args w v _ _ first rest =>
    intro before name stack
    obtain ⟨s', hw, h'⟩ := first ⟨before, name, []⟩ stack
    obtain ⟨s'', last, args', hv, h'', hargs⟩ := rest s' a _ stack h'
    have hc : s''.step ⟨m, .closeBracket⟩
        = some (.union (.extend before (.mk name (a :: args))) stack) := by
      rw [h''.step (by simp) (by simp)]
      simp [afterArg, hargs]
    have ho : (State.name before name stack).step ⟨n, .openBracket⟩
        = some (.arg ⟨before, name, []⟩ stack) := rfl
    simp only [steps_cons, steps_append, ho, hw, hv, hc, Option.bind_some]
    rfl
  | noArgs =>
    intro s v f stack hs
    exact ⟨s, v, f.args, rfl, hs, rfl⟩
  | @comma n a args w v _ _ first rest =>
    intro s b f stack hs
    have hb : s.step ⟨n, .comma⟩ = some (.arg { f with args := f.args ++ [b] } stack) :=
      hs.step (by simp) (by simp)
    obtain ⟨s', hw, h'⟩ := first { f with args := f.args ++ [b] } stack
    obtain ⟨s'', last, args', hv, h'', hargs⟩ := rest s' a _ stack h'
    exact ⟨s'', last, args', by simp [steps_cons, steps_append, hb, hw, hv], h'',
      by simpa using hargs⟩
  | @type a atoms w _ inner =>
    intro f stack
    obtain ⟨s', hw, h'⟩ := inner (.arg f stack) (f :: stack) (.inr ⟨f, stack, rfl, rfl, rfl⟩)
    exact ⟨s', hw, .inr ⟨⟨a, atoms⟩, rfl, h'⟩⟩
  | int =>
    intro f stack
    exact ⟨_, rfl, .inl rfl⟩
  | string =>
    intro f stack
    exact ⟨_, rfl, .inl rfl⟩

/-- The tokens of a union up to the bar before its next atom. -/
inductive BeforeAtom : Option Union → List (Located Token) → Prop
  | start : BeforeAtom none []
  | bar {u w n} : Derives (.union u) w → BeforeAtom (some u) (w ++ [⟨n, .bar⟩])

/-- The tokens inside of brackets up to the comma before the next argument. -/
inductive BeforeArg : List Arg → List (Located Token) → Prop
  | start : BeforeArg [] []
  | comma {a args w v n} : Derives (.arg a) w → Derives (.moreArgs args) v →
      BeforeArg (a :: args) (w ++ v ++ [⟨n, .comma⟩])

/-- The tokens before the current argument of the innermost frame. -/
inductive Opens : List Frame → List (Located Token) → Prop
  | nil : Opens [] []
  | cons {f stack outer w v n} : Opens stack outer → BeforeAtom f.before w → BeforeArg f.args v →
      Opens (f :: stack)
        (outer ++ w ++ ⟨f.name.offset, .name f.name.item⟩ :: ⟨n, .openBracket⟩ :: v)

/-- The tokens that lead from the start to a state. -/
inductive Reads : State → List (Located Token) → Prop
  | atom {before stack outer w} : Opens stack outer → BeforeAtom before w →
      Reads (.atom before stack) (outer ++ w)
  | arg {f stack outer} : Opens (f :: stack) outer → Reads (.arg f stack) outer
  | name {before name stack outer w} : Opens stack outer → BeforeAtom before w →
      Reads (.name before name stack) (outer ++ w ++ [⟨name.offset, .name name.item⟩])
  | union {u stack outer w} : Opens stack outer → Derives (.union u) w →
      Reads (.union u stack) (outer ++ w)
  | value {v f stack outer w} : Opens (f :: stack) outer → Derives (.arg v) w →
      Reads (.value v f stack) (outer ++ w)

variable {s s' : State} {u : Union} {stack : List Frame} {v : Arg} {f : Frame} {a : Atom}
  {before : Option Union} {tok : Located Token} {toks outer w w' : List (Located Token)}

theorem BeforeAtom.extend (h : BeforeAtom before w) (last : Derives (.atom a) w') :
    Derives (.union (.extend before a)) (w ++ w') := by
  cases h with
  | start => simpa [Union.extend] using Derives.union last .noAtoms
  | bar whole =>
    cases whole with
    | union first rest =>
      simpa [Union.extend] using Derives.union first (rest.more_atoms_concat _ last)

theorem BeforeArg.comma_next {args : List Arg} (h : BeforeArg args w) (last : Derives (.arg v) w')
    (n : Nat) : BeforeArg (args ++ [v]) (w ++ w' ++ [⟨n, .comma⟩]) := by
  cases h with
  | start => simpa using BeforeArg.comma (n := n) last .noArgs
  | comma first rest => simpa using BeforeArg.comma (n := n) first (rest.more_args_concat _ last)

theorem BeforeArg.close {args : List Arg} (h : BeforeArg args w) (last : Derives (.arg v) w')
    (n m : Nat) : Derives (.brackets (args ++ [v]))
      (⟨n, .openBracket⟩ :: (w ++ w' ++ [⟨m, .closeBracket⟩])) := by
  cases h with
  | start => simpa using Derives.brackets (n := n) (m := m) last .noArgs
  | comma first rest =>
    simpa using Derives.brackets (n := n) (m := m) first (rest.more_args_concat _ last)

theorem Opens.afterArg (h : Opens (f :: stack) outer) (last : Derives (.arg v) w)
    (hs : afterArg v f stack tok.item = some s') : Reads s' (outer ++ w ++ [tok]) := by
  obtain ⟨m, t⟩ := tok
  cases h with
  | @cons _ _ outer w₁ v₁ n open_ before args =>
    cases t with
    | comma =>
      cases hs
      have inner : Opens ({ f with args := f.args ++ [v] } :: stack) _ :=
        .cons (n := n) open_ before (args.comma_next last m)
      simpa using Reads.arg inner
    | closeBracket =>
      cases hs
      have whole := before.extend (Derives.applied (n := f.name.offset) (l := f.name.item)
        (args.close last n m))
      simpa using Reads.union open_ whole
    | name | int | string | bar | openBracket => contradiction

theorem Opens.afterAtom (h : Opens stack outer) (last : Derives (.union u) w)
    (hs : afterAtom u stack tok.item = some s') : Reads s' (outer ++ w ++ [tok]) := by
  obtain ⟨m, t⟩ := tok
  by_cases bar : t = .bar
  · subst bar
    cases hs
    simpa using Reads.atom h (.bar (n := m) last)
  · cases stack with
    | nil => cases t <;> contradiction
    | cons f stack =>
      have inner : State.afterArg u.toArg f stack t = some s' := by
        cases t <;> first | exact hs | exact absurd rfl bar
      exact h.afterArg (.type last) inner

theorem Reads.step (h : Reads s toks) (hs : s.step tok = some s') : Reads s' (toks ++ [tok]) := by
  obtain ⟨m, t⟩ := tok
  cases h with
  | atom open_ before =>
    cases t <;> cases hs
    exact Reads.name open_ before
  | arg open_ =>
    cases t <;> cases hs
    · simpa using Reads.name open_ BeforeAtom.start
    · exact .value open_ .int
    · exact .value open_ .string
  | @name _ name _ outer w open_ before =>
    by_cases bracket : t = .openBracket
    · subst bracket
      cases hs
      simpa using Reads.arg (Opens.cons (f := ⟨_, name, []⟩) (n := m) open_ before .start)
    · rw [holds_name.step bracket] at hs
      simpa using open_.afterAtom (before.extend .name) hs
  | union open_ whole => exact open_.afterAtom whole hs
  | value open_ whole => exact open_.afterArg whole hs

theorem Reads.steps (h : Reads s w) (hs : s.steps w' = some s') : Reads s' (w ++ w') := by
  induction w' generalizing s w with
  | nil =>
    cases hs
    simpa using h
  | cons tok rest ih =>
    rw [steps_cons, Option.bind_eq_some_iff] at hs
    obtain ⟨next, hn, hs⟩ := hs
    simpa using ih (h.step hn) hs

theorem reads_start : Reads .start [] := Reads.atom .nil .start

theorem Reads.derives (h : Reads s toks) (whole : HoldsUnion s u []) :
    Derives (.union u) toks := by
  rcases whole with rfl | ⟨before, n, rfl, rfl⟩
  · cases h with
    | union open_ derives =>
      cases open_
      exact derives
  · cases h with
    | name open_ before =>
      cases open_
      exact before.extend .name

/-- The machine accepts the tokens of an expression and no others. -/
theorem steps_start_iff :
    (∃ s, State.start.steps toks = some s ∧ s.result? = some u) ↔ Derives (.union u) toks := by
  constructor
  · rintro ⟨s, hs, hr⟩
    exact (reads_start.steps hs).derives (holds_of_result? hr)
  · intro h
    obtain ⟨s, hs, hold⟩ := h.runs _ [] (.inl rfl)
    exact ⟨s, hs, hold.result?⟩

theorem parse_eq_ok_iff {source : Text} :
    parse source = .ok u ↔ ∃ toks, Lexes 0 source toks [] ∧ Derives (.union u) toks := by
  rw [parse, run_eq_ok_iff, steps_start_iff]
  constructor
  · rintro ⟨done, h⟩
    exact ⟨_, tokens_eq_iff.mp (Prod.ext rfl done), h⟩
  · rintro ⟨toks, lexes, h⟩
    rw [tokens_eq_iff.mpr lexes]
    exact ⟨rfl, h⟩

end TypeLedger.Expr
