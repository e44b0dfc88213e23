import TypeLedger.Proofs.Expr.Reading

/-! Trees in which a numeral with too many digits comes before any fault. A form is judged by the
number of its arguments before they are, and they are judged from the left, so all that comes before
the numeral has a type. -/
namespace TypeLedger.Expr

open Numeral (Oversized)

/-- A numeral with too many digits. Its sign is none of them, its leading zeros are. -/
inductive Arg.TooLong : Arg → Oversized → Prop
  | int {n : Nat} {sign digits : Text} : IsSign sign →
      (∀ d ∈ digits, Numeral.isDigit d = true) → Numeral.maxDigits < digits.length →
      Arg.TooLong (.int ⟨n, sign ++ digits⟩) ⟨Numeral.maxDigits, digits.length⟩

mutual

/-- A numeral with too many digits is the first thing in the atom that is wrong. -/
inductive Atom.Overflows : Atom → Oversized → Prop
  | literal {n : Nat} {before after : List Arg} {v : Arg} {o : Oversized} :
      (∀ w ∈ before, ∃ t, w.DenotesValue t) → v.TooLong o →
      Atom.Overflows (.mk ⟨n, "Literal"⟩ (before ++ v :: after)) o
  | union {n : Nat} {before after : List Arg} {v : Arg} {o : Oversized} :
      (∀ w ∈ before, ∃ t, w.Denotes t) → v.Overflows o →
      Atom.Overflows (.mk ⟨n, "Union"⟩ (before ++ v :: after)) o
  | optional {n : Nat} {v : Arg} {o : Oversized} : v.Overflows o →
      Atom.Overflows (.mk ⟨n, "Optional"⟩ [v]) o
  | named {n : Nat} {l : Text} {before after : List Arg} {v : Arg} {o : Oversized} :
      l ∉ reservedNames → (∀ w ∈ before, ∃ t, w.Denotes t) → v.Overflows o →
      Atom.Overflows (.mk ⟨n, l⟩ (before ++ v :: after)) o

inductive Arg.Overflows : Arg → Oversized → Prop
  | union {first a : Atom} {rest before after : List Atom} {o : Oversized} :
      first :: rest = before ++ a :: after → (∀ b ∈ before, ∃ t, b.Denotes t) → a.Overflows o →
      Arg.Overflows (.union first rest) o

end

def Union.Overflows (u : Union) (o : Oversized) : Prop := u.toArg.Overflows o

variable {a first : Atom} {v : Arg} {args : List Arg} {atoms rest : List Atom} {l : Text} {n : Nat}
  {o : Oversized}

/-- The atom is given the type that it denotes, or is refused for a numeral that comes first. -/
def Atom.Settled (a : Atom) : Prop :=
  a.Agrees ∧ ∀ o, a.meaning = .error (.oversized o) ↔ a.Overflows o

def Arg.Settled (v : Arg) : Prop :=
  v.Agrees ∧ (∀ o, v.meaning = .error (.oversized o) ↔ v.Overflows o) ∧
    ∀ o, v.literal = .error (.oversized o) ↔ v.TooLong o

theorem literals_eq_oversized_iff (h : ∀ v ∈ args, v.Settled) :
    literals args = .error (.oversized o) ↔ ∃ before v after, args = before ++ v :: after ∧
      (∀ w ∈ before, ∃ t, w.DenotesValue t) ∧ v.TooLong o :=
  each_eq_error_iff (by rw [literals]) (fun _ _ => by rw [literals]) (fun v mem => (h v mem).1.2)
    fun v mem => (h v mem).2.2 o

theorem argMeanings_eq_oversized_iff (h : ∀ v ∈ args, v.Settled) :
    argMeanings args = .error (.oversized o) ↔ ∃ before v after, args = before ++ v :: after ∧
      (∀ w ∈ before, ∃ t, w.Denotes t) ∧ v.Overflows o :=
  each_eq_error_iff (by rw [argMeanings]) (fun _ _ => by rw [argMeanings])
    (fun v mem => (h v mem).1.1) fun v mem => (h v mem).2.1 o

theorem atomMeanings_eq_oversized_iff (h : ∀ a ∈ atoms, a.Settled) :
    atomMeanings atoms = .error (.oversized o) ↔ ∃ before a after, atoms = before ++ a :: after ∧
      (∀ b ∈ before, ∃ t, b.Denotes t) ∧ a.Overflows o :=
  each_eq_error_iff (by rw [atomMeanings]) (fun _ _ => by rw [atomMeanings])
    (fun a mem => (h a mem).1) fun a mem => (h a mem).2 o

theorem Atom.overflows_of_meaning (h : ∀ v ∈ args, v.Settled)
    (refused : (Atom.mk ⟨n, l⟩ args).meaning = .error (.oversized o)) :
    (Atom.mk ⟨n, l⟩ args).Overflows o := by
  rcases name_cases l with ⟨t, plain⟩ | rfl | rfl | rfl | free
  · rw [meaning_plain plain] at refused
    split at refused <;> cases refused
  · rw [meaning_literal] at refused
    split at refused
    next => cases refused
    next =>
      rw [map_eq_error_iff, literals_eq_oversized_iff h] at refused
      obtain ⟨before, v, after, rfl, each, long⟩ := refused
      exact .literal each long
  · rw [meaning_union] at refused
    split at refused
    next => cases refused
    next =>
      rw [map_eq_error_iff, argMeanings_eq_oversized_iff h] at refused
      obtain ⟨before, v, after, rfl, each, inner⟩ := refused
      exact .union each inner
  · rw [meaning_optional] at refused
    split at refused
    next one =>
      rw [map_eq_error_iff, argMeanings_eq_oversized_iff h] at refused
      obtain ⟨before, v, after, rfl, each, inner⟩ := refused
      rw [List.length_append, List.length_cons] at one
      obtain rfl := List.eq_nil_of_length_eq_zero (by omega : before.length = 0)
      obtain rfl := List.eq_nil_of_length_eq_zero (by omega : after.length = 0)
      exact .optional inner
    next => cases refused
  · rw [meaning_named free, map_eq_error_iff, argMeanings_eq_oversized_iff h] at refused
    obtain ⟨before, v, after, rfl, each, inner⟩ := refused
    exact .named free each inner

theorem Atom.meaning_of_overflows (h : ∀ v ∈ args, v.Settled)
    (overflows : (Atom.mk ⟨n, l⟩ args).Overflows o) :
    (Atom.mk ⟨n, l⟩ args).meaning = .error (.oversized o) := by
  cases overflows with
  | @literal _ before after v _ each long =>
    have refused := (literals_eq_oversized_iff h).mpr ⟨before, v, after, rfl, each, long⟩
    rw [meaning_literal, if_neg (by simp)]
    exact map_eq_error_iff.mpr refused
  | @union _ before after v _ each inner =>
    have refused := (argMeanings_eq_oversized_iff h).mpr ⟨before, v, after, rfl, each, inner⟩
    rw [meaning_union, if_neg (by simp)]
    exact map_eq_error_iff.mpr refused
  | @optional _ v _ inner =>
    have refused := (argMeanings_eq_oversized_iff h).mpr
      ⟨[], v, [], rfl, List.forall_mem_nil _, inner⟩
    rw [meaning_optional, if_pos (List.length_singleton ..)]
    exact map_eq_error_iff.mpr refused
  | @named _ _ before after v _ free each inner =>
    have refused := (argMeanings_eq_oversized_iff h).mpr ⟨before, v, after, rfl, each, inner⟩
    rw [meaning_named free]
    exact map_eq_error_iff.mpr refused

theorem Atom.settled_mk (h : ∀ v ∈ args, v.Settled) : (Atom.mk ⟨n, l⟩ args).Settled := by
  have agree : ∀ v ∈ args, v.Agrees := fun v mem => (h v mem).1
  exact ⟨fun _ => ⟨denotes_of_meaning agree, meaning_of_denotes agree⟩,
    fun _ => ⟨overflows_of_meaning h, meaning_of_overflows h⟩⟩

theorem Arg.settled_union (h : ∀ a ∈ first :: rest, a.Settled) :
    (Arg.union first rest).Settled := by
  refine ⟨Arg.agrees_union fun a mem => (h a mem).1, fun o => ?_, fun o => ?_⟩
  · rw [Arg.meaning_union, map_eq_error_iff, atomMeanings_eq_oversized_iff h]
    constructor
    · rintro ⟨before, a, after, split, each, inner⟩
      exact .union split each inner
    · rintro ⟨split, each, inner⟩
      exact ⟨_, _, _, split, each, inner⟩
  · obtain ⟨⟨_, _⟩, _⟩ := first
    rw [Arg.literal_name]
    constructor
    · intro refused
      split at refused <;> cases refused
    · exact nofun

theorem Arg.settled_int (spelt : IsInt l) : (Arg.int ⟨n, l⟩).Settled := by
  refine ⟨Arg.agrees_int spelt, fun o => ⟨nofun, nofun⟩, fun o => ?_⟩
  constructor
  · intro refused
    obtain ⟨sign, digits, rfl, isSign, -, each⟩ := spelt
    rw [Arg.literal, intLiteral_eq isSign each] at refused
    split at refused
    next => cases refused
    next long =>
      cases refused
      exact .int isSign each (Nat.lt_of_not_le long)
  · rintro ⟨isSign, each, long⟩
    rw [Arg.literal, intLiteral_eq isSign each, if_neg (Nat.not_le_of_lt long)]

theorem Arg.settled_string : (Arg.string ⟨n, l⟩).Settled := by
  refine ⟨Arg.agrees_string, fun o => ⟨nofun, nofun⟩, fun o => ⟨fun refused => ?_, nofun⟩⟩
  rw [Arg.literal, stringLiteral] at refused
  split at refused <;> cases refused

/-- A tree of a text is refused for a numeral exactly when that is the first thing that is wrong. -/
theorem Derives.meaning_eq_oversized_iff {u : Union} {toks : List (Located Token)}
    (h : Derives (.union u) toks) (spelt : ∀ tok ∈ toks, tok.item.Spelt) :
    u.meaning = .error (.oversized o) ↔ u.Overflows o := by
  have settled : Phrase.All Atom.Settled Arg.Settled (.union u) :=
    h.all spelt (fun _ _ _ _ => Atom.settled_mk) (fun _ _ => Arg.settled_union)
      (fun _ _ => Arg.settled_int) (fun _ _ _ => Arg.settled_string)
  exact (Arg.settled_union settled).2.1 o

end TypeLedger.Expr
