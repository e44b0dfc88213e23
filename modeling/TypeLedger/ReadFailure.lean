import TypeLedger.Text.Basic

/-! Why the file at a path cannot be read. -/
namespace TypeLedger

inductive ReadFailure
  | notFound
  | isDirectory
  | notDirectory
  | nameTooLong
  | other (reason : Text)
  deriving DecidableEq, Repr

def ReadFailure.message : ReadFailure → Text
  | notFound => "No such file or directory"
  | isDirectory => "Is a directory"
  | notDirectory => "Not a directory"
  | nameTooLong => "File name too long"
  | other reason => reason

end TypeLedger
