import TypeLedger.Proofs.Expr.Oversized
import TypeLedger.Proofs.Json.Numerals
import TypeLedger.Proofs.Trace.Loading
import TypeLedger.Proofs.Trace.Resolution

/-! When a trace has neither types for its records nor an error. Its path holds a null character, or the
text of the file or of a type holds a run of digits that is longer than a numeral may be. -/
namespace TypeLedger.Trace

variable {path : Text} {contents : Except ReadFailure (List UInt8)} {file : Option Text}
  {records : List Record} {a : Abort}

/-- What is to be seen where the trace is refused. -/
inductive Refuses (path : Text) (contents : Except ReadFailure (List UInt8)) : Abort → Prop
  | nullInPath : .scalar '\x00' ∈ path → Refuses path contents .nullInPath
  | inFile {bytes : List UInt8} {text : Text} {n : Numeral.Oversized} :
    contents = .ok bytes → Utf8.decode bytes = .ok text → n.OccursIn text →
    Refuses path contents (.oversized n)
  | inType {records : List Record} {r : Record} {n : Numeral.Oversized} :
    load path contents = .ok records → r ∈ records → n.OccursIn r.typeText →
    Refuses path contents (.oversized n)

theorem refuses_of_load (h : load path contents = .error (.abort a)) : Refuses path contents a := by
  have loads := loads_load path contents
  rw [h] at loads
  cases loads with
  | nullInPath null => exact .nullInPath null
  | oversized found decoded refused =>
    exact .inFile found decoded (Json.occursIn_of_read refused).of_unifyNewlines

theorem occursIn_of_resolve (h : resolve file records = .error (.abort a)) :
    ∃ n, a = .oversized n ∧ ∃ r ∈ records, n.OccursIn r.typeText := by
  cases unresolved_of_resolve h with
  | oversized mem refused => exact ⟨_, rfl, _, mem, Expr.occursIn_of_read refused⟩

end TypeLedger.Trace
