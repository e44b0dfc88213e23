import TypeLedger.Text.Numeral

/-! Reading the body of a JSON string, up to its closing quote. Pieces are read one by one; only
then are two neighbours that were both written by number joined to the large scalar that they are
the halves of. -/
namespace TypeLedger.Json

inductive BodyFault.Cause
  | unterminated
  | controlCharacter
  | badEscape
  | badUnit
  deriving DecidableEq, Repr

/-- Why a string cannot be read, and where. -/
structure BodyFault where
  cause : BodyFault.Cause
  offset : Nat
  deriving DecidableEq, Repr

def BodyFault.Cause.message : BodyFault.Cause → Text
  | unterminated => "Unterminated string starting at"
  | controlCharacter => "Invalid control character at"
  | badEscape => "Invalid \\escape"
  | badUnit => "Invalid \\uXXXX escape"

/-- A code point of a string, by itself or a short escape, or by its number. -/
inductive Piece
  | plain (c : CodePoint)
  | unit (c : CodePoint)
  deriving DecidableEq, Repr

def joinPieces : List Piece → Text
  | [] => []
  | .unit (.high h) :: .unit (.low l) :: rest => CodePoint.joinPair h l :: joinPieces rest
  | .plain c :: rest => c :: joinPieces rest
  | .unit c :: rest => c :: joinPieces rest

/-- What a backslash and a code point other than `u` stand for. -/
def shortEscape? : CodePoint → Option CodePoint
  | .scalar '"' => some (.scalar '"')
  | .scalar '\\' => some (.scalar '\\')
  | .scalar '/' => some (.scalar '/')
  | .scalar 'b' => some (.scalar '\x08')
  | .scalar 'f' => some (.scalar '\x0c')
  | .scalar 'n' => some (.scalar '\n')
  | .scalar 'r' => some (.scalar '\r')
  | .scalar 't' => some (.scalar '\t')
  | _ => none

/-- The code point with the number that four hexadecimal digits write. -/
def unit? (a b c d : CodePoint) : Option CodePoint := do
  let a ← Numeral.hexDigit? a
  let b ← Numeral.hexDigit? b
  let c ← Numeral.hexDigit? c
  let d ← Numeral.hexDigit? d
  return .ofNat (4096 * a + 256 * b + 16 * c + d)

/-- The pieces of a body and the number of code points they and the closing quote take. The body
starts at `offset`, its opening quote is at `opening`. A numbered piece that ends the text is
itself refused, and not the string for its missing closing quote. -/
def readPieces (opening offset : Nat) : Text → Except BodyFault (List Piece × Nat)
  | [] => .error ⟨.unterminated, opening⟩
  | .scalar '"' :: _ => .ok ([], 1)
  | .scalar '\\' :: [] => .error ⟨.unterminated, opening⟩
  | .scalar '\\' :: .scalar 'u' :: a :: b :: c :: d :: next :: rest =>
    match unit? a b c d with
    | none => .error ⟨.badUnit, offset + 1⟩
    | some u => (fun r => (.unit u :: r.1, r.2 + 6)) <$>
        readPieces opening (offset + 6) (next :: rest)
  | .scalar '\\' :: .scalar 'u' :: _ => .error ⟨.badUnit, offset + 1⟩
  | .scalar '\\' :: c :: rest =>
    match shortEscape? c with
    | none => .error ⟨.badEscape, offset⟩
    | some e => (fun r => (.plain e :: r.1, r.2 + 2)) <$> readPieces opening (offset + 2) rest
  | c :: rest =>
    if c.toNat < 0x20 then .error ⟨.controlCharacter, offset⟩
    else (fun r => (.plain c :: r.1, r.2 + 1)) <$> readPieces opening (offset + 1) rest

/-- The text of a string whose opening quote is at `opening` and whose body follows, and the number
of code points up to the end of its closing quote. -/
def readBody (opening : Nat) (body : Text) : Except BodyFault (Text × Nat) :=
  (fun r => (joinPieces r.1, r.2)) <$> readPieces opening (opening + 1) body

end TypeLedger.Json
