import TypeLedger.Text.Located
import TypeLedger.Text.Numeral

/-! Tokens of type expressions. Each token starts with a code point that starts no token of another
kind, so a text is split into tokens without regard to where they may stand. -/
namespace TypeLedger.Expr

inductive Token
  | name (lexeme : Text)
  | int (lexeme : Text)
  | string (lexeme : Text)
  | bar
  | openBracket
  | closeBracket
  | comma
  deriving DecidableEq, Repr

def Token.lexeme : Token → Text
  | name lexeme | int lexeme | string lexeme => lexeme
  | bar => "|"
  | openBracket => "["
  | closeBracket => "]"
  | comma => ","

/-- A letter or an underscore, in ASCII alone. -/
def startsName : CodePoint → Bool
  | .scalar c => c.isAlpha || c = '_'
  | _ => false

def continuesName (c : CodePoint) : Bool := startsName c || Numeral.isDigit c

/-- The longest continuation of a name: letters, digits and underscores, and points that come
before the first letter of a further part. -/
def nameTail : Text → Text
  | [] => []
  | c :: rest =>
    if continuesName c then c :: nameTail rest
    else if c = .scalar '.' ∧ rest.head?.any startsName then c :: nameTail rest
    else []

/-- What follows the opening quote of a string, up to the first quote on the line that is not
escaped, if there is one. `escaped` says whether an odd number of backslashes comes before. -/
def stringTail (escaped : Bool) : Text → Option Text
  | [] => none
  | c :: rest =>
    if c = .scalar '\n' then none
    else if c = .scalar '"' ∧ !escaped then some [c]
    else (c :: ·) <$> stringTail (c = .scalar '\\' && !escaped) rest

/-- An optional sign and as many digits as there are, at least one. -/
def int? (t : Text) : Option Text :=
  let sign : Text := match t with
    | .scalar '+' :: _ => [.scalar '+']
    | .scalar '-' :: _ => [.scalar '-']
    | _ => []
  match (t.drop sign.length).takeWhile Numeral.isDigit with
  | [] => none
  | digits => some (sign ++ digits)

/-- The token at the start of a text. -/
def token? : Text → Option Token
  | [] => none
  | c :: rest =>
    if c = .scalar '|' then some .bar
    else if c = .scalar '[' then some .openBracket
    else if c = .scalar ']' then some .closeBracket
    else if c = .scalar ',' then some .comma
    else if c = .scalar '"' then (stringTail false rest).map fun tail => .string (c :: tail)
    else if startsName c then some (.name (c :: nameTail rest))
    else (int? (c :: rest)).map .int

/-- What may stand between tokens and is ignored. -/
def isBlank (c : CodePoint) : Bool :=
  c = .scalar ' ' || c = .scalar '\t' || c = .scalar '\x0c' || c = .scalar '\r' || c = .scalar '\n'

/-- Where tokens end: at the end of the text, or at a code point where no token starts. -/
inductive Stop
  | finished
  | stuck (offset : Nat) (c : CodePoint)
  deriving DecidableEq, Repr

/-- The tokens of a text that starts at `offset`, and why they end. -/
def tokens (offset : Nat) (t : Text) : List (Located Token) × Stop :=
  match t with
  | [] => ([], .finished)
  | c :: rest =>
    if isBlank c then tokens (offset + 1) rest
    else
      match token? (c :: rest) with
      | none => ([], .stuck offset c)
      | some tok =>
        let n := tok.lexeme.length
        let others := tokens (offset + n) (rest.drop (n - 1))
        (⟨offset, tok⟩ :: others.1, others.2)
termination_by t.length
decreasing_by
  · simp
  · simp only [List.length_drop, List.length_cons]; omega

end TypeLedger.Expr
