import TypeLedger.Proofs.Expr.Outcome
import TypeLedger.Proofs.Trace.Loading
import TypeLedger.Proofs.Trace.Resolution

/-! What errors of a trace tell. The types of the records are all read, or the first text with a fault
is blamed, with a note on the place in it. All errors name the file, and those of its JSON have a place
in it. -/
namespace TypeLedger.Trace

/-- The notes on a fault in the text of a type: one that names the column, where it is reported with
a column. -/
def typeNotes (source : Text) (f : Expr.Fault) : List Text :=
  match (f.span source).column with
  | some column => [.concat ["at column ", column.text, " of ", Quoted.quote source]]
  | none => []

/-- The error tells that the text of the record has no type for a fault in it. -/
structure Error.Blames (file : Option Text) (r : Record) (f : Expr.Fault) (e : Error) : Prop where
  message : e.message = .concat ["record #", Numeral.ofNat r.index, ": ", f.message r.typeText]
  phase : e.phase = "type-expr"
  span : e.span = ⟨file, none, none⟩
  notes : e.notes = typeNotes r.typeText f
  noted : ∃ column : Nat, (f.span r.typeText).column = some (.number column) ∧
    e.notes = [.concat ["at column ", Numeral.ofNat column, " of ", Quoted.quote r.typeText]]

/-- The file can be read and holds UTF-8 text, which is not JSON. -/
def Undecoded (contents : Except ReadFailure (List UInt8)) : Prop :=
  ∃ bytes text fault, contents = .ok bytes ∧ Utf8.decode bytes = .ok text ∧
    Json.read (some Numeral.maxDigits) text.unifyNewlines = .error (.malformed fault)

/-- What an error of a trace with the file tells, where `undecoded` is whether its text is not JSON. -/
structure Error.Diagnoses (file : Option Text) (undecoded : Prop) (e : Error) : Prop where
  file : e.span.file = file
  message : ("invalid JSON: " : Text) <+: e.message ↔ undecoded
  placed : undecoded → ∃ line column : Nat, 1 ≤ line ∧ 1 ≤ column ∧
    e.span.line = some (.number line) ∧ e.span.column = some (.number column)
  unplaced : ¬undecoded → e.span.line = none ∧ e.span.column = none
  notes : e.notes ≠ [] ↔ e.phase = "type-expr"

variable {file : Option Text} {path : Text} {contents : Except ReadFailure (List UInt8)}
  {data : Json.Value} {before after records : List Record} {r : Record}
  {f : Expr.Fault} {e : Error} {cause : Error.Cause} {undecoded : Prop}

theorem column_span (source : Text) (f : Expr.Fault) :
    (f.span source).column = some (.number (f.position source).column) := by
  rw [Expr.span_eq]
  rfl

/-- Faults are always reported with a column. -/
theorem typeNotes_eq (source : Text) (f : Expr.Fault) : typeNotes source f =
    [.concat ["at column ", Numeral.ofNat (f.position source).column, " of ",
      Quoted.quote source]] := by
  rw [typeNotes, column_span]
  rfl

theorem blames_typeText (file : Option Text) (r : Record) (f : Expr.Fault) :
    Error.Blames file r f ⟨file, .typeText r.index r.typeText f⟩ where
  message := rfl
  phase := rfl
  span := rfl
  notes := (typeNotes_eq _ _).symm
  noted := ⟨_, column_span _ _, rfl⟩

theorem resolve_of_first_fault (readable : ∀ q ∈ before, ∃ t, Expr.read q.typeText = .ok t)
    (faulty : Expr.read r.typeText = .error (.faulty f)) :
    resolve file (before ++ r :: after) =
      .error (.error ⟨file, .typeText r.index r.typeText f⟩) := by
  induction before with
  | nil => rw [List.nil_append, resolve, faulty]
  | cons q before ih =>
    obtain ⟨⟨t, read⟩, rest⟩ := List.forall_mem_cons.mp readable
    rw [List.cons_append, resolve, read, ih rest]
    rfl

/-- Nothing but what is said of JSON starts with its first letter. -/
theorem head?_message (other : ∀ c p, cause ≠ .notJson c p) :
    (⟨file, cause⟩ : Error).message.head? ≠ some (.scalar 'i') := by
  cases cause with
  | notJson c p => exact absurd rfl (other c p)
  | shape fault => cases fault <;> exact nofun
  | _ => exact nofun

/-- An error that is not one of JSON has no place, and a note where it is one of a type. -/
theorem diagnoses_plain (decoded : ¬undecoded) (other : ∀ c p, cause ≠ .notJson c p) :
    Error.Diagnoses file undecoded ⟨file, cause⟩ := by
  have span : (⟨file, cause⟩ : Error).span = .ofFile file := by
    cases cause with
    | notJson c p => exact absurd rfl (other c p)
    | _ => rfl
  refine ⟨?_, ⟨?_, fun h => absurd h decoded⟩, fun h => absurd h decoded, fun _ => ?_, ?_⟩
  · rw [span]
    rfl
  · rintro ⟨rest, same⟩
    exact (head?_message other (congrArg List.head? same).symm).elim
  · rw [span]
    exact ⟨rfl, rfl⟩
  · cases cause with
    | typeText => simp [Error.notes, Error.phase]
    | _ => simp [Error.notes, Error.phase]; decide

theorem diagnoses_notJson (h : undecoded) (c : Json.Fault.Cause) (fault : Json.Fault) (text : Text) :
    Error.Diagnoses file undecoded ⟨file, .notJson c (fault.position text)⟩ where
  file := rfl
  message := ⟨fun _ => h, fun _ => List.prefix_append _ _⟩
  placed _ := ⟨_, _, Position.one_le_line .., Position.one_le_column .., rfl, rfl⟩
  unplaced decoded := absurd h decoded
  notes := by simp [Error.notes, Error.phase]; decide

theorem diagnoses_of_parse (decoded : ¬undecoded) (h : parse file data = .error e) :
    e.Diagnoses file undecoded := by
  rw [parse] at h
  split at h
  next => cases h
  next =>
    cases h
    exact diagnoses_plain decoded fun _ _ => nofun

theorem diagnoses_of_load (h : load path contents = .error (.error e)) :
    e.Diagnoses (some path) (Undecoded contents) := by
  have loads := loads_load path contents
  rw [h] at loads
  cases loads with
  | unreadable found =>
    refine diagnoses_plain ?_ fun _ _ => nofun
    rintro ⟨_, _, _, same, -⟩
    cases found.symm.trans same
  | notUtf8 found invalid =>
    refine diagnoses_plain ?_ fun _ _ => nofun
    rintro ⟨_, _, _, same, decoded, -⟩
    cases found.symm.trans same
    cases invalid.symm.trans decoded
  | notJson found decoded malformed =>
    exact diagnoses_notJson ⟨_, _, _, found, decoded, malformed⟩ ..
  | refused found decoded read refused =>
    refine diagnoses_of_parse ?_ refused
    rintro ⟨_, _, _, same, again, malformed⟩
    cases found.symm.trans same
    cases decoded.symm.trans again
    cases read.symm.trans malformed

theorem diagnoses_of_resolve (h : resolve file records = .error (.error e)) :
    e.Diagnoses file False := by
  cases unresolved_of_resolve h with
  | faulty => exact diagnoses_plain id fun _ _ => nofun

/-- The types of all records are found, or none: the first text with a fault is blamed. Each error names
the file, has a place exactly when the file is not JSON, and has notes exactly when it is one of a
type. -/
theorem resolves_all_or_blames_first :
    (∀ file records resolved, resolve file records = .ok resolved ↔
      List.Forall₂ (fun r p => p.1 = r ∧ Expr.read r.typeText = .ok p.2) records resolved) ∧
    (∀ file records, (∀ r ∈ records, ∃ t, Expr.read r.typeText = .ok t) →
      ∃ resolved, resolve file records = .ok resolved) ∧
    (∀ file before r after f, (∀ q ∈ before, ∃ t, Expr.read q.typeText = .ok t) →
      Expr.read r.typeText = .error (.faulty f) →
      ∃ e, resolve file (before ++ r :: after) = .error (.error e) ∧ e.Blames file r f) ∧
    (∀ path contents e, load path contents = .error (.error e) →
      e.Diagnoses (some path) (Undecoded contents)) ∧
    (∀ file data e, parse file data = .error e → e.Diagnoses file False) ∧
    ∀ file records e, resolve file records = .error (.error e) → e.Diagnoses file False := by
  refine ⟨fun _ _ _ => resolve_eq_ok_iff, fun file _ => exists_resolve file, ?_,
    fun _ _ _ => diagnoses_of_load, fun _ _ _ => diagnoses_of_parse id,
    fun _ _ _ => diagnoses_of_resolve⟩
  intro file before r after f readable faulty
  exact ⟨_, resolve_of_first_fault readable faulty, blames_typeText file r f⟩

/-- A bracket that stays open is blamed with the column of the last token, and a bare word in a file
with its line and column. -/
theorem resolves_all_or_blames_first_open :
    let good : Record := ⟨"_", 1, "int", 0⟩
    let bad : Record := ⟨"x", 2, "list[int", 1⟩
    let f : Expr.Fault := ⟨.unexpectedEnd, 5⟩
    let contents : Except ReadFailure (List UInt8) := .ok (Utf8.encode "[1,\n word]")
    (∃ resolved, resolve none [good] = .ok resolved) ∧
    Expr.read bad.typeText = .error (.faulty f) ∧
    (∃ e, resolve (some "t.json") [good, bad, good] = .error (.error e) ∧
      e.Blames (some "t.json") bad f ∧ e.Diagnoses (some "t.json") False ∧
      e.notes = ["at column 6 of 'list[int'"]) ∧
    (∃ e, load "t.json" contents = .error (.error e) ∧
      e.Diagnoses (some "t.json") (Undecoded contents) ∧
      e.span = .ofPosition (some "t.json") ⟨2, 2⟩) ∧
    ∃ e, parse none .null = .error e ∧ e.Diagnoses none False := by
  intro good bad f contents
  have found : (fun _ => ()) <$> Expr.read good.typeText = .ok () := by decide +kernel
  have readable : ∀ q ∈ [good], ∃ t, Expr.read q.typeText = .ok t := by
    obtain ⟨t, read, -⟩ := map_eq_ok_iff.mp found
    exact List.forall_mem_singleton.mpr ⟨t, read⟩
  have faulty : Expr.read bad.typeText = .error (.faulty f) := by
    refine (map_eq_error_iff (f := fun _ => ())).mp ?_
    decide +kernel
  have malformed : load "t.json" contents =
      .error (.error ⟨some "t.json", .notJson .value ⟨2, 2⟩⟩) := by
    decide +kernel
  have noList : parse none .null = .error ⟨none, .shape .notAList⟩ := rfl
  obtain ⟨-, all, first, loaded, parsed, resolved⟩ := resolves_all_or_blames_first
  obtain ⟨e, fails, blames⟩ := first (some "t.json") [good] bad [good] f readable faulty
  refine ⟨all none [good] readable, faulty, ⟨e, fails, blames, resolved _ _ e fails, ?_⟩,
    ⟨_, malformed, loaded _ _ _ malformed, rfl⟩, ⟨_, noList, parsed _ _ _ noList⟩⟩
  rw [blames.notes, typeNotes_eq]
  decide +kernel

end TypeLedger.Trace
