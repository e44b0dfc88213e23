import TypeLedger.Span

/-! Diagnostics, as JSON and as text. -/
namespace TypeLedger

structure Diagnostic where
  message : Text
  code : Option Text := none
  /-- The step that the diagnostic comes from. -/
  phase : Option Text := none
  severity : Text := "error"
  span : Span := {}
  notes : List Text := []
  deriving DecidableEq, Repr

namespace Diagnostic

def optional {α : Type} (f : α → Json.Value) : Option α → Json.Value
  | none => .null
  | some a => f a

def toJson (d : Diagnostic) : Json.Value :=
  .object [
    ("phase", optional .string d.phase),
    ("code", optional .string d.code),
    ("message", .string d.message),
    ("severity", .string d.severity),
    ("file", optional .string d.span.file),
    ("line", optional Coordinate.toJson d.span.line),
    ("column", optional Coordinate.toJson d.span.column),
    ("notes", .array (d.notes.map .string))]

/-- The name shown for a file; a missing or empty one is shown as the input. -/
def fileText : Option Text → Text
  | none | some [] => "<input>"
  | some name => name

def coordinateText : Option Coordinate → Text
  | none => "?"
  | some c => c.text

def noteLine (note : Text) : Text := "\n  note: " ++ note

/-- The place, the severity and the message on a line, and a line for each note. -/
def format (d : Diagnostic) : Text :=
  .concat [fileText d.span.file, ":", coordinateText d.span.line, ":",
    coordinateText d.span.column, ": ", d.severity, ": ", d.message, d.notes.flatMap noteLine]

end Diagnostic
end TypeLedger
