import TypeLedger.Ty.Same

/-! Combining a sequence of types into one. `Never` is dropped, `Unknown` absorbs all and then
`Any` does; of what is left unions are opened, literals go last, and a member is kept unless it is
there already or is a literal whose class is there. -/
namespace TypeLedger.Ty

/-- The types with each union replaced by its members. -/
def openUnions (types : List Ty) : List Ty :=
  types.flatMap fun
    | union members => members
    | t => [t]

/-- The types that are no literals before the literals, each in order. -/
def literalsLast (types : List Ty) : List Ty :=
  types.filter (!·.isLiteral) ++ types.filter isLiteral

/-- The members after one more type, which goes last unless it adds nothing to them. -/
def addMember (members : List Ty) (t : Ty) : List Ty :=
  let present := contains members t
  let absorbed := match t with
    | literal base _ => contains members base
    | _ => false
  if present || absorbed then members else members ++ [t]

def members (types : List Ty) : List Ty :=
  (literalsLast (openUnions types)).foldl addMember []

/-- A member alone is no union. -/
def ofMembers : List Ty → Ty
  | [t] => t
  | ts => union ts

/-- A type alone is kept as it is. No types combine to `Never`. -/
def combine : List Ty → Ty
  | [t] => t
  | types =>
    let live := types.filter (!·.isNever)
    if live.isEmpty then never
    else if live.any isUnknown then unknown
    else if live.any isAny then any
    else ofMembers (members live)

/-- Why a combination was refused. -/
inductive CombineError
  | noTypes
  deriving DecidableEq, Repr

def CombineError.message : CombineError → Text
  | noTypes => "combine_types requires at least one type"

/-- The combination of one type or more. -/
def combineSome : List Ty → Except CombineError Ty
  | [] => .error .noTypes
  | types => .ok (combine types)

end TypeLedger.Ty
