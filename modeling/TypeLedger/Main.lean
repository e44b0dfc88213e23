import TypeLedger.Command.Report

/-! The command on the files of the system. -/
namespace TypeLedger.Command

/-- The failure that an error number of the system stands for. Numbers are given with either
sign. -/
def ofErrorNumber (number : UInt32) (details : String) : ReadFailure :=
  let size := min number.toNat (0 - number).toNat
  if size = 20 then .notDirectory
  else if size = 21 then .isDirectory
  else if size = 36 then .nameTooLong
  else .other details

/-- The failure that a system error stands for. -/
def readFailure : IO.Error → ReadFailure
  | .noFileOrDirectory .. => .notFound
  | .inappropriateType _ number details => ofErrorNumber number details
  | .invalidArgument _ number details => ofErrorNumber number details
  | .permissionDenied _ number details => ofErrorNumber number details
  | e => .other (toString e)

def readFile (path : Text) : IO (Except ReadFailure (List UInt8)) := do
  try
    return .ok (← IO.FS.readBinFile path.toString).toList
  catch e =>
    return .error (readFailure e)

def emit (o : Outcome) : IO UInt32 := do
  IO.print o.output.toString
  IO.eprint o.errors.toString
  return UInt32.ofNat o.status

end TypeLedger.Command

open TypeLedger Command in
def main (args : List String) : IO UInt32 := do
  match plan (args.map Text.ofString) with
  | .error outcome => emit outcome
  | .ok o =>
    match o.report (← readFile o.trace) with
    | .ok outcome => emit outcome
    | .error a =>
      IO.eprintln a.message.toString
      return 1
