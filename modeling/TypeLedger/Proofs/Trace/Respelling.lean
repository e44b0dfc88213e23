import TypeLedger.Trace.Replay
import TypeLedger.Proofs.Expr.Respelling
import TypeLedger.Proofs.Trace.Resolution

/-! Records with the texts of their types printed anew. A replay looks at no text, and the texts have
the types they had, so that every pass shows the same. -/
namespace TypeLedger.Trace

variable {file : Option Text} {records : List Record} {l : Ledger} {f : Record → Record}

/-- The record with the text of its type as it is printed. A text without a type is left. -/
def Record.respell (r : Record) : Record :=
  match Expr.read r.typeText with
  | .ok type => { r with typeText := type.print }
  | .error _ => r

theorem Record.respell_eq {r : Record} {type : Ty} (h : Expr.read r.typeText = .ok type) :
    r.respell = { r with typeText := type.print } := by
  simp only [respell, h]

/-- The function changes nothing of a record but the text of its type. -/
structure ChangesText (f : Record → Record) : Prop where
  binding : ∀ r, (f r).binding = r.binding
  source : ∀ r, (f r).source = r.source
  index : ∀ r, (f r).index = r.index

theorem changesText_respell : ChangesText Record.respell := by
  constructor <;> intro r <;> unfold Record.respell <;> split <;> rfl

/-- The step with another record. -/
def Step.relabel (f : Record → Record) (s : Step) : Step := { s with record := f s.record }

namespace Ledger

theorem submit_changed (h : ChangesText f) (record : Record) (type : Ty) :
    l.submit (f record) type =
      ((l.submit record type).1, (l.submit record type).2.relabel f) := by
  simp only [submit, Step.relabel, h.binding, h.source]

theorem replay_changed (h : ChangesText f) (records : List (Record × Ty)) :
    l.replay (records.map (Prod.map f id)) =
      ((l.replay records).1, (l.replay records).2.map (Step.relabel f)) := by
  induction records generalizing l with
  | nil => rfl
  | cons r rest ih =>
    rw [List.map_cons, replay, Prod.map_fst, Prod.map_snd, id, submit_changed h, ih]
    rfl

theorem passes_changed (h : ChangesText f) (records : List (Record × Ty)) (n : Nat) :
    passes (records.map (Prod.map f id)) n l =
      (passes records n l).map fun pass => (pass.1, pass.2.map (Step.relabel f)) := by
  induction n generalizing l with
  | zero => rfl
  | succ n ih => rw [passes, passes, replay_changed h, ih, List.map_cons]

end Ledger

/-- All that a pass shows: its steps as JSON and as lines, the diagnostics of those that changed
their binding, and the bindings at the end. -/
def shown (file : Option Text) (pass : Ledger × List Step) :
    List Json.Value × List Text × List Diagnostic × Json.Value :=
  (pass.2.map Step.toJson, pass.2.map Step.format, checkFixpoint file pass.2, pass.1.toJson)

theorem shown_relabel (h : ChangesText f) (pass : Ledger × List Step) :
    shown file (pass.1, pass.2.map (Step.relabel f)) = shown file pass := by
  have json (s : Step) : (s.relabel f).toJson = s.toJson := by
    simp only [Step.toJson, Step.relabel, h.binding, h.source, h.index]
  have line (s : Step) : (s.relabel f).format = s.format := by
    simp only [Step.format, Step.relabel, h.binding, h.source]
    rfl
  have diagnostic (s : Step) : (s.relabel f).notConverged file = s.notConverged file := by
    simp only [Step.notConverged, Step.relabel, h.binding, h.source, h.index]
  have changed (s : Step) : (s.relabel f).changed = s.changed := rfl
  simp [shown, checkFixpoint, List.filter_map, Function.comp_def, json, line, diagnostic, changed]

theorem resolve_respell {resolved : List (Record × Ty)}
    (scalar : ∀ record ∈ records, record.typeText.IsScalar)
    (h : resolve file records = .ok resolved) :
    resolve file (records.map Record.respell) =
      .ok (resolved.map (Prod.map Record.respell id)) := by
  rw [resolve_eq_ok_iff] at h ⊢
  rw [List.forall₂_map_left_iff, List.forall₂_map_right_iff]
  induction h with
  | nil => exact .nil
  | @cons record r records rest first _ ih =>
    obtain ⟨one, others⟩ := List.forall_mem_cons.mp scalar
    obtain ⟨rfl, read⟩ := first
    refine .cons ⟨rfl, ?_⟩ (ih others)
    rw [Record.respell_eq read]
    exact Expr.read_print_of_read read one

/-- Records whose texts have types and no halves of surrogate pairs can be respelt: they resolve as
well, and however many passes are made over them, each shows what it shows of the records as they
were. -/
theorem respelling_shows_the_same (file : Option Text) (records : List Record)
    (scalar : ∀ record ∈ records, record.typeText.IsScalar)
    (readable : ∀ record ∈ records, ∃ type, Expr.read record.typeText = .ok type) :
    ∃ resolved respelt, resolve file records = .ok resolved ∧
      resolve file (records.map Record.respell) = .ok respelt ∧
      ∀ place n, (Ledger.passes respelt n .empty).map (shown place) =
        (Ledger.passes resolved n .empty).map (shown place) := by
  obtain ⟨resolved, h⟩ := exists_resolve file readable
  refine ⟨resolved, _, h, resolve_respell scalar h, fun place n => ?_⟩
  rw [Ledger.passes_changed changesText_respell, List.map_map]
  apply List.map_congr_left
  intro pass _
  exact shown_relabel changesText_respell pass

/-- A literal beside its class, a sign with zeros, and a pair of halves that is written by numbers. -/
theorem respelling_shows_the_same_escaped :
    let records : List Record := [
      ⟨"x", 1, "Union[int, Literal[+007, \"\\uD83D\\ude00\"]]", 0⟩,
      ⟨"y", 1, "Optional[NoReturn]", 1⟩]
    (records.map Record.respell).map Record.typeText =
      (["int | Literal[\"\\ud83d\\ude00\"]", "None"] : List Text) ∧
    ∃ resolved respelt, resolve none records = .ok resolved ∧
      resolve none (records.map Record.respell) = .ok respelt ∧
      (Ledger.passes respelt 2 .empty).map (shown none) =
        (Ledger.passes resolved 2 .empty).map (shown none) := by
  intro records
  have readable : ∀ record ∈ records, ∃ type, Expr.read record.typeText = .ok type := by
    have first : (Expr.read "Union[int, Literal[+007, \"\\uD83D\\ude00\"]]").toOption.map Ty.print
        = some "int | Literal[\"\\ud83d\\ude00\"]" := by decide +kernel
    have second : (Expr.read "Optional[NoReturn]").toOption.map Ty.print = some "None" := by
      decide +kernel
    obtain ⟨t, read, _⟩ := exists_of_toOption first
    obtain ⟨u, read', _⟩ := exists_of_toOption second
    simp [records, read, read']
  obtain ⟨resolved, respelt, h, h', same⟩ := respelling_shows_the_same none records
    (by simp [records, Text.isScalar_ofString]) readable
  exact ⟨by decide +kernel, resolved, respelt, h, h', same none 2⟩

end TypeLedger.Trace
