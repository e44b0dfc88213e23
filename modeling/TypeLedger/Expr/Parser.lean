import TypeLedger.Expr.Fault
import TypeLedger.Expr.Token
import TypeLedger.Expr.Tree

/-! From tokens to trees: a machine takes the tokens one by one and keeps the names whose brackets
are open on a stack. It refuses a token as soon as no expression goes on with it. -/
namespace TypeLedger.Expr

/-- A name whose brackets are open, with the atoms before it in its union and the arguments read so
far. -/
structure Frame where
  before : Option Union
  name : Located Text
  args : List Arg

inductive State
  /-- An atom has to follow. -/
  | atom (before : Option Union) (stack : List Frame)
  /-- An argument of the innermost frame has to follow. -/
  | arg (frame : Frame) (stack : List Frame)
  /-- A name has been read, which brackets may follow. -/
  | name (before : Option Union) (name : Located Text) (stack : List Frame)
  /-- An atom is complete, which a bar may follow. -/
  | union (u : Union) (stack : List Frame)
  /-- An argument that is a value is complete. -/
  | value (v : Arg) (frame : Frame) (stack : List Frame)

namespace State

def start : State := atom none []

/-- The state after a token that follows a complete argument. -/
def afterArg (v : Arg) (f : Frame) (stack : List Frame) : Token → Option State
  | .comma => some (arg { f with args := f.args ++ [v] } stack)
  | .closeBracket => some (union (.extend f.before (.mk f.name (f.args ++ [v]))) stack)
  | _ => none

/-- The state after a token that follows a complete atom. -/
def afterAtom (u : Union) (stack : List Frame) (tok : Token) : Option State :=
  match tok, stack with
  | .bar, stack => some (atom (some u) stack)
  | _, [] => none
  | tok, f :: stack => afterArg u.toArg f stack tok

/-- The state after a token, if one can follow. -/
def step (tok : Located Token) : State → Option State
  | atom before stack =>
    match tok.item with
    | .name lexeme => some (name before ⟨tok.offset, lexeme⟩ stack)
    | _ => none
  | arg frame stack =>
    match tok.item with
    | .name lexeme => some (name none ⟨tok.offset, lexeme⟩ (frame :: stack))
    | .int lexeme => some (value (.int ⟨tok.offset, lexeme⟩) frame stack)
    | .string lexeme => some (value (.string ⟨tok.offset, lexeme⟩) frame stack)
    | _ => none
  | name before n stack =>
    match tok.item with
    | .openBracket => some (arg ⟨before, n, []⟩ stack)
    | t => afterAtom (.extend before (.mk n [])) stack t
  | union u stack => afterAtom u stack tok.item
  | value v frame stack => afterArg v frame stack tok.item

/-- The expression that is complete in the state, if the text may end there. -/
def result? : State → Option Union
  | name before n [] => some (.extend before (.mk n []))
  | union u [] => some u
  | _ => none

/-- Runs over tokens that end for the reason `stop`. The token before them is at `last`. -/
def run (stop : Stop) (last : Nat) (state : State) : List (Located Token) → Except Fault Union
  | [] =>
    match stop with
    | .stuck offset c => .error ⟨.unexpectedCharacter c, offset⟩
    | .finished =>
      match state.result? with
      | some u => .ok u
      | none => .error ⟨.unexpectedEnd, last⟩
  | tok :: rest =>
    match state.step tok with
    | none => .error ⟨.unexpectedToken tok.item.lexeme, tok.offset⟩
    | some next => next.run stop tok.offset rest

end State

/-- The tree of a type expression. An early end without any token is blamed on the first place. -/
def parse (source : Text) : Except Fault Union :=
  let scanned := tokens 0 source
  State.start.run scanned.2 0 scanned.1

end TypeLedger.Expr
