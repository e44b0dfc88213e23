import TypeLedger.Text.Located

/-! Type expressions as trees. Names, numerals and strings keep the offsets they have in the text,
for the faults that are found when a tree is given its meaning. -/
namespace TypeLedger.Expr

mutual

/-- A name with arguments; without brackets there are none, and brackets are never empty. -/
inductive Atom
  | mk (name : Located Text) (args : List Arg)

inductive Arg
  /-- A union of one atom or more. -/
  | union (first : Atom) (rest : List Atom)
  | int (lexeme : Located Text)
  | string (lexeme : Located Text)

end

/-- A whole type expression: one atom or more. -/
structure Union where
  first : Atom
  rest : List Atom

def Union.toArg (u : Union) : Arg := .union u.first u.rest

/-- A union with one atom more. -/
def Union.extend : Option Union → Atom → Union
  | none, a => ⟨a, []⟩
  | some u, a => ⟨u.first, u.rest ++ [a]⟩

end TypeLedger.Expr
