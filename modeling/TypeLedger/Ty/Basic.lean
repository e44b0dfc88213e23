import TypeLedger.Text.Basic

/-! Types: four that stand for themselves, named classes with arguments, single literal values, and
unions with their members in order. -/
namespace TypeLedger

/-- The value of a literal. -/
inductive LiteralValue
  | int (n : Int)
  | str (t : Text)
  | bool (b : Bool)
  deriving DecidableEq, Repr

inductive Ty
  /-- Not resolved yet. -/
  | unknown
  | any
  /-- The type without values. -/
  | never
  /-- The type of the value `None`. -/
  | null
  /-- A class, with arguments if it is specialised. -/
  | named (name : Text) (args : List Ty)
  /-- One value of a class. -/
  | literal (base : Ty) (value : LiteralValue)
  | union (members : List Ty)
  deriving Inhabited

/-- The class of a literal value. -/
def LiteralValue.cls : LiteralValue → Ty
  | int _ => .named "int" []
  | str _ => .named "str" []
  | bool _ => .named "bool" []

namespace Ty

/-- The literal of a value, over the class of the value. -/
def ofValue (v : LiteralValue) : Ty := .literal v.cls v

def isNever : Ty → Bool
  | never => true
  | _ => false

def isUnknown : Ty → Bool
  | unknown => true
  | _ => false

def isAny : Ty → Bool
  | any => true
  | _ => false

def isLiteral : Ty → Bool
  | literal .. => true
  | _ => false

end Ty
end TypeLedger
