import TypeLedger.Json.Reader
import TypeLedger.Text.Quoted

/-! What can be wrong with a type expression, where it is, and how that is said. -/
namespace TypeLedger.Expr

inductive Fault.Cause
  /-- The text ends too early. -/
  | unexpectedEnd
  /-- A token stands where it cannot. -/
  | unexpectedToken (lexeme : Text)
  /-- No token starts here. -/
  | unexpectedCharacter (c : CodePoint)
  | takesNoArguments (name : Text)
  | unionWithoutArguments
  | optionalArity
  | literalWithoutValues
  /-- A value stands where a type has to. -/
  | valueOutsideLiteral (lexeme : Text)
  | notALiteralValue
  | badString (lexeme : Text) (fault : Json.Fault)
  deriving DecidableEq, Repr

/-- A fault and the offset that it is blamed on: that of the token or code point at fault, and for
an early end that of the last token. -/
structure Fault where
  cause : Fault.Cause
  offset : Nat
  deriving DecidableEq, Repr

/-- Why a text has no type: a fault in it, or a numeral with too many digits. -/
inductive ReadError
  | faulty (fault : Fault)
  | oversized (numeral : Numeral.Oversized)
  deriving DecidableEq, Repr

/-- The message of a fault in the expression `source`. -/
def Fault.message (source : Text) (f : Fault) : Text :=
  match f.cause with
  | .unexpectedEnd => .concat ["unexpected end of type expression ", Quoted.quote source]
  | .unexpectedToken lexeme =>
    .concat ["unexpected ", Quoted.quote lexeme, " in type expression ", Quoted.quote source]
  | .unexpectedCharacter c =>
    .concat ["unexpected character ", Quoted.quote [c], " in type expression ",
      Quoted.quote source]
  | .takesNoArguments name => .concat ["'", name, "' does not take type arguments"]
  | .unionWithoutArguments => "'Union' requires at least one type argument"
  | .optionalArity => "'Optional' requires exactly one type argument"
  | .literalWithoutValues => "'Literal' requires at least one value"
  | .valueOutsideLiteral lexeme =>
    .concat ["literal value ", lexeme, " is only allowed inside Literal[...]"]
  | .notALiteralValue => "Literal[...] values must be int, str, bool or None"
  | .badString lexeme fault =>
    .concat ["invalid string literal ", lexeme, ": ", fault.describe lexeme]

def Fault.position (source : Text) (f : Fault) : Position := .ofOffset source f.offset

end TypeLedger.Expr
