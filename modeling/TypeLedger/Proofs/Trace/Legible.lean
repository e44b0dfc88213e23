import TypeLedger.Proofs.Expr.Respelling
import TypeLedger.Proofs.Json.Numerals
import TypeLedger.Proofs.Trace.Loading
import TypeLedger.Proofs.Trace.Rules
import TypeLedger.Proofs.Trace.Types

/-! What a replay shows can be written, and the types can be read again. The numbers of the sources are
those of the file, where longer ones are refused. -/
namespace TypeLedger

/-- A source whose number can be written, with a type that has a text. -/
structure Source.Legible (s : Source) : Prop where
  id : (LiteralValue.int s.id).Writable
  type : Expr.Legible s.type

namespace Trace

variable {path : Text} {contents : Except ReadFailure (List UInt8)} {file : Option Text}
  {data : Json.Value} {records : List Record} {resolved : List (Record × Ty)}

theorem carried_legible : Accumulator.Carried Source.Legible Expr.Legible where
  unknown := .unknown
  combine _ hs := .combine (List.forall_mem_map.mpr fun s mem => (hs s mem).type)

theorem hasInt_of_get? {key : Text} {i : Int} (h : Json.get? data.fields key = some (.int i)) :
    data.HasInt i := by
  cases data with
  | object fields =>
    obtain ⟨before, after, rfl, _⟩ := List.lookup_eq_some_iff.mp h
    exact .object (List.mem_append_right before List.mem_cons_self) .int
  | _ => cases h

theorem hasInt_of_parse (h : parse file data = .ok records) : ∀ r ∈ records, data.HasInt r.source := by
  obtain ⟨items, rfl, -, reads⟩ := reads_of_parse h
  exact forall_of_forall₂ reads fun item mem _ reads =>
    .array (List.fst_mem_of_mem_zipIdx mem) (hasInt_of_get? reads.source)

theorem writable_of_load (h : load path contents = .ok records) :
    ∀ r ∈ records, (LiteralValue.int r.source).Writable := by
  have loads := loads_load path contents
  rw [h] at loads
  cases loads with
  | records _ _ read parsed =>
    exact fun r mem => Json.isShort_of_read read _ (hasInt_of_parse parsed r mem)

theorem legible_of_load (loaded : load path contents = .ok records)
    (h : resolve file records = .ok resolved) (scalar : ∀ r ∈ records, r.typeText.IsScalar) :
    ∀ r ∈ resolved, (sourceOf r).Legible :=
  forall_of_resolve h fun r mem _ read =>
    ⟨writable_of_load loaded r mem, .of_read read (scalar r mem)⟩

end Trace
end TypeLedger
