import TypeLedger.Ty.Combine
import TypeLedger.Ty.Printer

/-! A type put together from several sources. Each source has an identifier and a type; a later
submission for an identifier replaces its type in place. The combination is kept, and replaced only
by a type that is not the same. -/
namespace TypeLedger

structure Source where
  id : Int
  type : Ty

/-- The sources in order of first submission, and their combination. -/
structure Accumulator where
  sources : List Source
  combined : Ty

namespace Accumulator

/-- What a submission does to an accumulator. -/
inductive Event
  | added (id : Int) (type : Ty)
  | replaced (id : Int) (old new : Ty)
  | combinedChanged (old new : Ty)

/-- The accumulator after a submission, whether its combination changed, and what was done. -/
structure Outcome where
  next : Accumulator
  changed : Bool
  events : List Event

/-- Nothing is known before the first submission. -/
def empty : Accumulator := ⟨[], .unknown⟩

/-- The sources with a new type for one of them. -/
def retype (id : Int) (type : Ty) (sources : List Source) : List Source :=
  sources.map fun s => if s.id = id then ⟨id, type⟩ else s

/-- Combines new sources. The combination so far stays if the new one is the same. -/
def recombine (sources : List Source) (combined : Ty) (event : Event) : Outcome :=
  let new := Ty.combine (sources.map Source.type)
  if new.same combined then ⟨⟨sources, combined⟩, false, [event]⟩
  else ⟨⟨sources, new⟩, true, [event, .combinedChanged combined new]⟩

/-- Submits a type for a source. Nothing is done if the source has the same type already. -/
def submit (a : Accumulator) (id : Int) (type : Ty) : Outcome :=
  match a.sources.find? (·.id = id) with
  | none => recombine (a.sources ++ [⟨id, type⟩]) a.combined (.added id type)
  | some s =>
    if s.type.same type then ⟨a, false, []⟩
    else recombine (retype id type a.sources) a.combined (.replaced id s.type type)

/-- One line of a log. -/
def Event.log (e : Event) : Text :=
  "DEBUG inferred.inferred_type: " ++ match e with
    | added id type => .concat ["source ", Numeral.ofInt id, " added: ", type.print]
    | replaced id old new =>
      .concat ["source ", Numeral.ofInt id, " replaced: ", old.print, " -> ", new.print]
    | combinedChanged old new =>
      .concat ["combined type changed: ", old.print, " -> ", new.print]

/-- The accumulator on one line. -/
def display (a : Accumulator) : Text :=
  let source (s : Source) : Text := .concat [Numeral.ofInt s.id, ": ", s.type.print]
  .concat ["InferredType(", a.combined.print, "; sources=[",
    .joinWith ", " (a.sources.map source), "])"]

end Accumulator
end TypeLedger
