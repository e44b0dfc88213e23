import TypeLedger.Text.Basic

/-! Paths in their shortest spelling: no empty component, none that is a single point, and no slash
at the end. Two slashes at the start are kept, other numbers of them become one. -/
namespace TypeLedger.Path

/-- The parts of a text between slashes. -/
def split : Text → List Text
  | [] => [[]]
  | c :: rest =>
    if c = .scalar '/' then [] :: split rest
    else
      match split rest with
      | [] => [[c]]
      | part :: parts => (c :: part) :: parts

/-- The components of a path, `..` among them. -/
def components (path : Text) : List Text :=
  (split path).filter fun part => part ≠ [] ∧ part ≠ "."

/-- What an absolute path starts with. -/
def root (path : Text) : Text :=
  match (path.takeWhile (· = .scalar '/')).length with
  | 0 => ""
  | 2 => "//"
  | _ => "/"

/-- The shortest spelling of a path. -/
def normalize (path : Text) : Text :=
  match root path ++ .joinWith "/" (components path) with
  | [] => "."
  | spelling => spelling

end TypeLedger.Path
