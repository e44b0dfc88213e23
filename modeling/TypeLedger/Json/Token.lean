import TypeLedger.Text.Located
import TypeLedger.Json.Body
import TypeLedger.Json.Value

/-! JSON tokens. Which token starts at a code point does not depend on what came before, so a text
is first split into tokens up to the first place where none can be read. -/
namespace TypeLedger.Json

inductive Token
  | leftBracket
  | rightBracket
  | leftBrace
  | rightBrace
  | colon
  | comma
  /-- An integer numeral, its sign apart from its digits. -/
  | integer (negative : Bool) (digits : Text)
  | string (t : Text)
  /-- A fraction or one of the fixed words. -/
  | scalar (v : Value)

/-- Where tokens end: at the end of the text, or where no token starts, or where a string starts
that cannot be read. -/
inductive Stop
  | finished
  | stuck
  | badString (fault : BodyFault)
  deriving DecidableEq, Repr

/-- Digits after a point, with the point. -/
def fraction (t : Text) : Text :=
  match t with
  | .scalar '.' :: rest =>
    match rest.takeWhile Numeral.isDigit with
    | [] => []
    | digits => .scalar '.' :: digits
  | _ => []

/-- The digits of a signed exponent, with what comes before them. -/
def exponent (t : Text) : Text × Text :=
  match t with
  | .scalar e :: rest =>
    if e = 'e' ∨ e = 'E' then
      let sign := match rest with
        | .scalar '+' :: _ => [.scalar '+']
        | .scalar '-' :: _ => [.scalar '-']
        | _ => []
      match (rest.drop sign.length).takeWhile Numeral.isDigit with
      | [] => ([], [])
      | digits => (.scalar e :: sign, digits)
    else ([], [])
  | _ => ([], [])

/-- The digits before the point: a zero alone, or digits that do not start with a zero. -/
def wholeDigits (t : Text) : Text :=
  match t with
  | .scalar '0' :: _ => [.scalar '0']
  | _ => t.takeWhile Numeral.isDigit

/-- The longest numeral at the start of a text and its length. -/
def numeral? (t : Text) : Option (Token × Nat) :=
  let sign : Text := match t with
    | .scalar '-' :: _ => [.scalar '-']
    | _ => []
  let negative := sign ≠ []
  let t := t.drop sign.length
  let whole := wholeDigits t
  let t := t.drop whole.length
  let part := fraction t
  let t := t.drop part.length
  let lead := (exponent t).1
  let power := (exponent t).2
  let size := sign.length + whole.length + part.length + lead.length + power.length
  if whole = [] then none
  else if part = [] ∧ power = [] then some (.integer negative whole, size)
  else
    let places : Int := (part.drop 1).length
    let shift : Int :=
      if .scalar '-' ∈ lead then -(Numeral.value power : Int) else Numeral.value power
    let decimal := .finite negative (Numeral.value (whole ++ part.drop 1)) (shift - places)
    some (.scalar (.fraction decimal), size)

/-- The words that are values. -/
def words : List (Text × Value) :=
  [("null", .null), ("true", .bool true), ("false", .bool false),
    ("NaN", .fraction .notANumber), ("Infinity", .fraction (.infinite false)),
    ("-Infinity", .fraction (.infinite true))]

def word? (t : Text) : Option (Token × Nat) :=
  (words.find? fun (word, _) => word.isPrefixOf t).map fun (word, v) => (.scalar v, word.length)

/-- The token at the start of a text that is at `offset`, and its length. -/
def token (offset : Nat) (t : Text) : Except Stop (Token × Nat) :=
  match t with
  | .scalar '[' :: _ => .ok (.leftBracket, 1)
  | .scalar ']' :: _ => .ok (.rightBracket, 1)
  | .scalar '\x7b' :: _ => .ok (.leftBrace, 1)
  | .scalar '\x7d' :: _ => .ok (.rightBrace, 1)
  | .scalar ':' :: _ => .ok (.colon, 1)
  | .scalar ',' :: _ => .ok (.comma, 1)
  | .scalar '"' :: body =>
    match readBody offset body with
    | .ok (text, n) => .ok (.string text, n + 1)
    | .error fault => .error (.badString fault)
  | _ =>
    match word? t with
    | some found => .ok found
    | none =>
      match numeral? t with
      | some found => .ok found
      | none => .error .stuck

def isBlank (c : CodePoint) : Bool :=
  c = .scalar ' ' || c = .scalar '\t' || c = .scalar '\n' || c = .scalar '\r'

/-- The tokens of a text that starts at `offset`, and where and why they end. -/
def tokens (offset : Nat) (t : Text) : List (Located Token) × Located Stop :=
  match t with
  | [] => ([], ⟨offset, .finished⟩)
  | c :: rest =>
    if isBlank c then tokens (offset + 1) rest
    else
      match token offset (c :: rest) with
      | .error stop => ([], ⟨offset, stop⟩)
      | .ok (tok, n) =>
        let others := tokens (offset + n) (rest.drop (n - 1))
        (⟨offset, tok⟩ :: others.1, others.2)
termination_by t.length
decreasing_by
  · simp
  · simp only [List.length_drop, List.length_cons]; omega

end TypeLedger.Json
