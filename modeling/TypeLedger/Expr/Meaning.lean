import TypeLedger.Expr.Fault
import TypeLedger.Expr.Tree
import TypeLedger.Ty.Combine

/-! The type that a tree denotes. The number of a form's arguments is judged before its arguments,
and arguments from left to right; the first fault found is the one reported. -/
namespace TypeLedger.Expr

/-- The types that names alone denote. They take no arguments. -/
def plainType? (name : Text) : Option Ty :=
  if name = "Unknown" then some .unknown
  else if name = "Any" then some .any
  else if name = "Never" ∨ name = "NoReturn" then some .never
  else if name = "None" then some .null
  else none

/-- The type of a name that stands for a value in `Literal`. -/
def plainValue? (name : Text) : Option Ty :=
  if name = "True" then some (.ofValue (.bool true))
  else if name = "False" then some (.ofValue (.bool false))
  else if name = "None" then some .null
  else none

/-- The literal of a numeral with an optional sign. -/
def intLiteral (lexeme : Text) : Except ReadError Ty :=
  let negative := lexeme.head? = some (.scalar '-')
  let digits := lexeme.dropWhile fun c => c = .scalar '-' || c = .scalar '+'
  match Numeral.read (some Numeral.maxDigits) digits with
  | .ok n => .ok (.ofValue (.int (if negative then -n else n)))
  | .error numeral => .error (.oversized numeral)

/-- The literal of a string, which is read as JSON. -/
def stringLiteral (lexeme : Located Text) : Except ReadError Ty :=
  match Json.readString lexeme.item with
  | .ok t => .ok (.ofValue (.str t))
  | .error fault => .error (.faulty ⟨.badString lexeme.item fault, lexeme.offset⟩)

/-- The type of an argument of `Literal`: a value, or a name alone that stands for one. -/
def Arg.literal : Arg → Except ReadError Ty
  | .int lexeme => intLiteral lexeme.item
  | .string lexeme => stringLiteral lexeme
  | .union (.mk name args) rest =>
    match plainValue? name.item, args, rest with
    | some t, [], [] => .ok t
    | _, _, _ => .error (.faulty ⟨.notALiteralValue, name.offset⟩)

def literals : List Arg → Except ReadError (List Ty)
  | [] => .ok []
  | a :: rest => do
    let t ← a.literal
    let ts ← literals rest
    return t :: ts

mutual

def Atom.meaning (atom : Atom) : Except ReadError Ty :=
  match atom with
  | .mk name args =>
    if name.item = "Literal" then
      if args.isEmpty then .error (.faulty ⟨.literalWithoutValues, name.offset⟩)
      else Ty.combine <$> literals args
    else if let some t := plainType? name.item then
      if args.isEmpty then .ok t
      else .error (.faulty ⟨.takesNoArguments name.item, name.offset⟩)
    else if name.item = "Union" then
      if args.isEmpty then .error (.faulty ⟨.unionWithoutArguments, name.offset⟩)
      else Ty.combine <$> argMeanings args
    else if name.item = "Optional" then
      if args.length = 1 then (fun ts => Ty.combine (ts ++ [.null])) <$> argMeanings args
      else .error (.faulty ⟨.optionalArity, name.offset⟩)
    else Ty.named name.item <$> argMeanings args
termination_by structural atom

/-- The type of an argument of any form but `Literal`. -/
def Arg.meaning (arg : Arg) : Except ReadError Ty :=
  match arg with
  | .union first rest => do
    let t ← first.meaning
    let ts ← atomMeanings rest
    return Ty.combine (t :: ts)
  | .int lexeme | .string lexeme =>
    .error (.faulty ⟨.valueOutsideLiteral lexeme.item, lexeme.offset⟩)
termination_by structural arg

def atomMeanings (atoms : List Atom) : Except ReadError (List Ty) :=
  match atoms with
  | [] => .ok []
  | a :: rest => do
    let t ← a.meaning
    let ts ← atomMeanings rest
    return t :: ts
termination_by structural atoms

def argMeanings (args : List Arg) : Except ReadError (List Ty) :=
  match args with
  | [] => .ok []
  | a :: rest => do
    let t ← a.meaning
    let ts ← argMeanings rest
    return t :: ts
termination_by structural args

end

def Union.meaning (u : Union) : Except ReadError Ty := u.toArg.meaning

end TypeLedger.Expr
