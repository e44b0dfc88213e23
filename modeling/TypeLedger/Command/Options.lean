import TypeLedger.Path
import TypeLedger.Text.DecimalDigit
import TypeLedger.Text.Quoted

/-! The arguments of the command. All arguments are first told apart: flags, which may be shortened
or run together, operands, and what is neither. Then they are taken from left to right, so that
help ends the reading and the first flag with a value it cannot have is reported. -/
namespace TypeLedger.Command

inductive Flag
  | help
  | json
  | fixpointCheck
  | verbose
  deriving DecidableEq, Repr

/-- The spellings of the flags, in order. -/
def spellings : List (Text × Flag) :=
  [("-h", .help), ("--help", .help), ("--json", .json), ("--fixpoint-check", .fixpointCheck),
    ("-v", .verbose), ("--verbose", .verbose)]

def Flag.label (f : Flag) : Text :=
  .joinWith "/" ((spellings.filter (·.2 = f)).map Prod.fst)

inductive UsageError
  | ambiguous (arg : Text) (candidates : List Text)
  | unwantedValue (flag : Flag) (value : Text)
  | missingTrace
  | unrecognized (args : List Text)
  deriving DecidableEq, Repr

def UsageError.message : UsageError → Text
  | ambiguous arg candidates =>
    .concat ["ambiguous option: ", arg, " could match ", .joinWith ", " candidates]
  | unwantedValue flag value =>
    .concat ["argument ", flag.label, ": ignored explicit argument ", Quoted.quote value]
  | missingTrace => "the following arguments are required: trace"
  | unrecognized args => "unrecognized arguments: " ++ .joinWith " " args

/-- An argument. A flag may have text attached: a value after an equals sign, or what follows a
flag of one letter. -/
inductive Arg
  | operand (text : Text)
  | flag (f : Flag) (long : Bool) (attached : Option Text)
  | unknown (text : Text)
  /-- Two hyphens, after which there are only operands. -/
  | divider
  deriving DecidableEq, Repr

def divider : Text := "--"

/-- The text before the first equals sign, and the one after it if there is one. -/
def splitValue (arg : Text) : Text × Option Text :=
  let name := arg.takeWhile (· ≠ .scalar '=')
  match arg.drop name.length with
  | [] => (name, none)
  | _ :: value => (name, some value)

def isLong (spelling : Text) : Bool := ("--" : Text).isPrefixOf spelling

/-- The flags that an argument may stand for when it is no full spelling: long ones that it is the
start of, or a flag of one letter with text attached. -/
def candidates (arg : Text) : List (Text × Arg) :=
  if isLong arg then
    let (name, value) := splitValue arg
    (spellings.filter fun (spelling, _) => name.isPrefixOf spelling).map fun (spelling, f) =>
      (spelling, .flag f true value)
  else
    (spellings.filter fun (spelling, _) => spelling = arg.take 2).map fun (spelling, f) =>
      (spelling, .flag f false (some (arg.drop 2)))

/-- A hyphen and a decimal number, which a line feed may follow. -/
def isNegativeNumber (arg : Text) : Bool :=
  let arg := if arg.getLast? = some (.scalar '\n') then arg.dropLast else arg
  match arg with
  | .scalar '-' :: number =>
    let whole := number.takeWhile Text.isDecimalDigit
    match number.drop whole.length with
    | [] => whole ≠ []
    | .scalar '.' :: part => part ≠ [] ∧ part.all Text.isDecimalDigit
    | _ => false
  | _ => false

/-- Tells what an argument is that starts with a hyphen and is no full spelling. -/
def classifyOther (arg : Text) : Except UsageError Arg :=
  match candidates arg with
  | [(_, found)] => .ok found
  | first :: second :: rest =>
    .error (.ambiguous arg ((first :: second :: rest).map Prod.fst))
  | [] =>
    if isNegativeNumber arg ∨ .scalar ' ' ∈ arg then .ok (.operand arg) else .ok (.unknown arg)

def classify (arg : Text) : Except UsageError Arg :=
  if arg.head? ≠ some (.scalar '-') ∨ arg = "-" then .ok (.operand arg)
  else
    match spellings.lookup arg, splitValue arg with
    | some f, _ => .ok (.flag f (isLong arg) none)
    | none, (name, some value) =>
      match spellings.lookup name with
      | some f => .ok (.flag f (isLong name) (some value))
      | none => classifyOther arg
    | none, (_, none) => classifyOther arg

def classifyAll : List Text → Except UsageError (List Arg)
  | [] => .ok []
  | arg :: rest =>
    if arg = divider then .ok (.divider :: rest.map .operand)
    else do
      let first ← classify arg
      let others ← classifyAll rest
      return first :: others

/-- The flags run together in a flag of one letter and the text attached to it. -/
def cluster (f : Flag) : Text → Except UsageError (List Flag)
  | [] => .ok [f]
  | c :: rest =>
    match spellings.lookup [.scalar '-', c] with
    | some g => (f :: ·) <$> cluster g rest
    | none => .error (.unwantedValue f (c :: rest))

/-- The flags that an argument sets. -/
def flagsOf (f : Flag) (long : Bool) : Option Text → Except UsageError (List Flag)
  | none => .ok [f]
  | some value =>
    if long ∨ value = [] then .error (.unwantedValue f value) else cluster f value

structure Options where
  /-- The path of the trace, in its shortest spelling. -/
  trace : Text
  json : Bool
  fixpointCheck : Bool
  verbosity : Nat
  deriving DecidableEq, Repr

inductive Request
  | help
  | replay (options : Options)
  deriving DecidableEq, Repr

/-- What the arguments taken so far amount to. -/
structure Progress where
  trace : Option Text := none
  json : Bool := false
  fixpointCheck : Bool := false
  verbosity : Nat := 0
  /-- The arguments that have no meaning. -/
  extras : List Text := []

/-- Sets flags up to the first one that asks for help. -/
def Progress.set (p : Progress) : List Flag → Option Progress
  | [] => some p
  | .help :: _ => none
  | .json :: rest => set { p with json := true } rest
  | .fixpointCheck :: rest => set { p with fixpointCheck := true } rest
  | .verbose :: rest => set { p with verbosity := p.verbosity + 1 } rest

def Progress.finish (p : Progress) : Except UsageError Request :=
  match p.trace with
  | none => .error .missingTrace
  | some trace =>
    if p.extras ≠ [] then .error (.unrecognized p.extras)
    else .ok (.replay ⟨Path.normalize trace, p.json, p.fixpointCheck, p.verbosity⟩)

/-- Takes arguments one by one. The first operand is the trace, and a divider next to it belongs to
it; other operands and dividers have no meaning. -/
def Progress.take (p : Progress) : List Arg → Except UsageError Request
  | [] => p.finish
  | .unknown text :: rest => take { p with extras := p.extras ++ [text] } rest
  | .flag f long attached :: rest =>
    match flagsOf f long attached with
    | .error e => .error e
    | .ok flags =>
      match p.set flags with
      | none => .ok .help
      | some next => take next rest
  | .divider :: .operand text :: rest =>
    if p.trace.isNone then take { p with trace := some text } rest
    else take { p with extras := p.extras ++ [divider, text] } rest
  | .divider :: rest => take { p with extras := p.extras ++ [divider] } rest
  | .operand text :: .divider :: rest =>
    if p.trace.isNone then take { p with trace := some text } rest
    else take { p with extras := p.extras ++ [text, divider] } rest
  | .operand text :: rest =>
    if p.trace.isNone then take { p with trace := some text } rest
    else take { p with extras := p.extras ++ [text] } rest

/-- What the arguments of the command ask for. -/
def Request.ofArgs (args : List Text) : Except UsageError Request :=
  match classifyAll args with
  | .error e => .error e
  | .ok args => Progress.take {} args

end TypeLedger.Command
