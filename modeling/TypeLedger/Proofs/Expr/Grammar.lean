import TypeLedger.Expr.Token
import TypeLedger.Expr.Tree

/-! The grammar of type expressions, on lists of tokens. A derivation is of one tree, whose names and
values keep the places of their tokens; the places of the other tokens are free. -/
namespace TypeLedger.Expr

/-- The phrases of the grammar, with the trees that they derive. -/
inductive Phrase
  | union (u : Union)
  | moreAtoms (atoms : List Atom)
  | atom (a : Atom)
  | brackets (args : List Arg)
  | moreArgs (args : List Arg)
  | arg (a : Arg)

inductive Derives : Phrase → List (Located Token) → Prop
  | union {a atoms w v} : Derives (.atom a) w → Derives (.moreAtoms atoms) v →
      Derives (.union ⟨a, atoms⟩) (w ++ v)
  | noAtoms : Derives (.moreAtoms []) []
  | bar {n a atoms w v} : Derives (.atom a) w → Derives (.moreAtoms atoms) v →
      Derives (.moreAtoms (a :: atoms)) (⟨n, .bar⟩ :: (w ++ v))
  | name {n l} : Derives (.atom (.mk ⟨n, l⟩ [])) [⟨n, .name l⟩]
  | applied {n l args w} : Derives (.brackets args) w →
      Derives (.atom (.mk ⟨n, l⟩ args)) (⟨n, .name l⟩ :: w)
  | brackets {n m a args w v} : Derives (.arg a) w → Derives (.moreArgs args) v →
      Derives (.brackets (a :: args)) (⟨n, .openBracket⟩ :: (w ++ v ++ [⟨m, .closeBracket⟩]))
  | noArgs : Derives (.moreArgs []) []
  | comma {n a args w v} : Derives (.arg a) w → Derives (.moreArgs args) v →
      Derives (.moreArgs (a :: args)) (⟨n, .comma⟩ :: (w ++ v))
  | type {a atoms w} : Derives (.union ⟨a, atoms⟩) w → Derives (.arg (.union a atoms)) w
  | int {n l} : Derives (.arg (.int ⟨n, l⟩)) [⟨n, .int l⟩]
  | string {n l} : Derives (.arg (.string ⟨n, l⟩)) [⟨n, .string l⟩]

variable {a : Atom} {atoms : List Atom} {v w : List (Located Token)} {arg : Arg} {args : List Arg}

theorem Derives.more_atoms_concat (n : Nat) (h : Derives (.moreAtoms atoms) w)
    (last : Derives (.atom a) v) : Derives (.moreAtoms (atoms ++ [a])) (w ++ ⟨n, .bar⟩ :: v) := by
  induction atoms generalizing w with
  | nil =>
    cases h
    simpa using Derives.bar (n := n) last .noAtoms
  | cons b atoms ih =>
    cases h with
    | bar first rest => simpa using Derives.bar first (ih rest)

theorem Derives.more_args_concat (n : Nat) (h : Derives (.moreArgs args) w)
    (last : Derives (.arg arg) v) :
    Derives (.moreArgs (args ++ [arg])) (w ++ ⟨n, .comma⟩ :: v) := by
  induction args generalizing w with
  | nil =>
    cases h
    simpa using Derives.comma (n := n) last .noArgs
  | cons b args ih =>
    cases h with
    | comma first rest => simpa using Derives.comma first (ih rest)

end TypeLedger.Expr
