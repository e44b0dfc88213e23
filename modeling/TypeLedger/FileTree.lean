import TypeLedger.Path
import TypeLedger.ReadFailure
import TypeLedger.Text.Utf8

/-! A tree of files below a current directory. Nothing but directories is known of what lies above
it. A path is looked up component by component, and the first obstacle is reported. -/
namespace TypeLedger

/-- Files and empty directories by their components. -/
structure FileTree where
  entries : List (List Text × Option (List UInt8))

namespace FileTree

/-- What a place holds. -/
inductive Node
  | file (bytes : List UInt8)
  | directory

/-- Where a look-up has come to: below the current directory, or in a directory above it. -/
inductive Place
  | below (components : List Text) (node : Node)
  | above

/-- The longest name of a component and the longest path, in bytes. -/
def maxName : Nat := 255

def maxPath : Nat := 4095

def node? (t : FileTree) (components : List Text) : Option Node :=
  match t.entries.find? (·.1 = components) with
  | some (_, some bytes) => some (.file bytes)
  | some (_, none) => some .directory
  | none =>
    if t.entries.any fun (name, _) => components.isPrefixOf name then some .directory else none

/-- The current directory. -/
def here : Place := .below [] .directory

/-- The place of a component in the directory at a place. -/
def enter (t : FileTree) (place : Place) (component : Text) : Except ReadFailure Place :=
  match place with
  | .below _ (.file _) => .error .notDirectory
  | .below components .directory =>
    if component = ".." then
      if components = [] then .ok .above else .ok (.below components.dropLast .directory)
    else if maxName < (Utf8.encode component).length then .error .nameTooLong
    else
      match t.node? (components ++ [component]) with
      | some node => .ok (.below (components ++ [component]) node)
      | none => .error .notFound
  | .above =>
    if component = ".." then .ok .above
    else if maxName < (Utf8.encode component).length then .error .nameTooLong
    else .error .notFound

/-- The bytes of the file at a path. -/
def read (t : FileTree) (path : Text) : Except ReadFailure (List UInt8) :=
  if maxPath < (Utf8.encode path).length then .error .nameTooLong
  else do
    let start := if Path.root path = [] then here else .above
    match ← (Path.components path).foldlM t.enter start with
    | .below _ (.file bytes) => .ok bytes
    | _ => .error .isDirectory

end FileTree
end TypeLedger
