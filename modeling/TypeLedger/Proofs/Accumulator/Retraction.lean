import TypeLedger.Proofs.Accumulator.Rerun
import TypeLedger.Proofs.Accumulator.Widening

/-! Sources that are taken back. An accumulator has no way to forget a source, but one whose type is
`Never` leaves no trace in the combination, as if nothing had been submitted for it. -/
namespace TypeLedger.Accumulator

variable {className : Text → Prop} {calls : List Source} {id other : Int}

/-- The submissions for all identifiers but one. -/
def without (id : Int) (calls : List Source) : List Source := calls.filter (·.id ≠ id)

theorem history_without (h : other ≠ id) : history other (without id calls) = history other calls := by
  unfold history without
  rw [List.filter_filter]
  refine congrArg (List.map Source.type) (List.filter_congr fun call _ => ?_)
  by_cases named : call.id = other
  · simp [named, h]
  · simp [named]

theorem eraseDups_filter (p : Int → Bool) (ids : List Int) :
    (ids.filter p).eraseDups = ids.eraseDups.filter p := by
  induction ids using List.reverseRecOn with
  | nil => rfl
  | append_singleton ids id ih =>
    rw [List.filter_append, List.filter_singleton]
    cases wanted : p id with
    | false =>
      by_cases old : id ∈ ids
      · simp [eraseDups_concat_mem old, ih]
      · simp [eraseDups_concat_new old, ih, wanted]
    | true =>
      by_cases old : id ∈ ids
      · have kept : id ∈ ids.filter p := List.mem_filter.mpr ⟨old, wanted⟩
        simp [eraseDups_concat_mem old, eraseDups_concat_mem kept, ih]
      · have new : id ∉ ids.filter p := mt List.mem_of_mem_filter old
        simp [eraseDups_concat_new old, eraseDups_concat_new new, ih, wanted]

/-- Without the submissions for an identifier the others have the sources that they have with them. -/
theorem sources_run_without (id : Int) (calls : List Source) :
    (empty.run (without id calls)).sources = without id (empty.run calls).sources := by
  have part := reflects_run (without id calls)
  have whole := reflects_run calls
  apply sources_eq
  · have ids (sources : List Source) :
        (without id sources).map Source.id = (sources.map Source.id).filter (· ≠ id) := by
      rw [List.filter_map]
      rfl
    rw [part.ids, ids, ids, whole.ids, eraseDups_filter]
  · intro s mem s' mem' named
    obtain ⟨mem', different⟩ := List.mem_filter.mp mem'
    have settled := part.types s mem
    rw [named, history_without (of_decide_eq_true different)] at settled
    exact settled.unique (whole.types s' mem')

theorem without_concat (id : Int) (calls : List Source) (type : Ty) :
    without id (calls ++ [⟨id, type⟩]) = without id calls := by
  simp [without]

/-- The source of an identifier has a type that is the same as the latest one submitted for it. -/
theorem same_of_mem_run_concat {s call : Source} (mem : s ∈ (empty.run (calls ++ [call])).sources)
    (named : s.id = call.id) : s.type.same call.type = true := by
  obtain ⟨latest, last, same⟩ := ((reflects_run _).types s mem).same_latest
  rw [named, history_concat_self, List.getLast?_concat] at last
  exact Option.some.inj last ▸ same

/-- The values of a source that is taken back are gone, and those of the others stay. -/
theorem extent_retract (id : Int) (calls : List Source) :
    extent (empty.run (calls ++ [⟨id, .never⟩])).sources =
      extent (empty.run (without id calls)).sources := by
  rw [← without_concat id calls .never, sources_run_without]
  ext p
  rw [mem_extent, mem_extent]
  constructor
  · rintro ⟨s, mem, belongs⟩
    refine ⟨s, List.mem_filter.mpr ⟨mem, decide_eq_true fun named => ?_⟩, belongs⟩
    have gone := Ty.extent_eq_of_same (same_of_mem_run_concat mem named)
    rw [gone, Ty.extent_never] at belongs
    exact belongs
  · rintro ⟨s, mem, belongs⟩
    exact ⟨s, (List.mem_filter.mp mem).1, belongs⟩

theorem Consistent.same_of_extent_eq {a b : Accumulator} (ha : Consistent a) (hb : Consistent b)
    (normalA : a.Normal className) (normalB : b.Normal className) (someA : a.sources ≠ [])
    (someB : b.sources ≠ []) (h : extent a.sources = extent b.sources) :
    a.combined.same b.combined = true := by
  apply normalA.combined.same_of_extent_eq normalB.combined
  rw [ha.extent_combined normalA someA, hb.extent_combined normalB someB, h]

/-- A source that is given the type `Never` is taken back: the combination is the same as if nothing
had ever been submitted for it, provided that there is another source. -/
theorem never_retracts (calls : List Source) (id : Int)
    (normal : ∀ call ∈ calls, call.type.Normal className) (another : ∃ call ∈ calls, call.id ≠ id) :
    (empty.run (calls ++ [⟨id, .never⟩])).combined.same
      (empty.run (without id calls)).combined = true := by
  have remain : without id calls ≠ [] := by
    obtain ⟨call, mem, different⟩ := another
    exact List.ne_nil_of_mem (List.mem_filter.mpr ⟨mem, decide_eq_true different⟩)
  have retracted : ∀ call ∈ calls ++ [⟨id, .never⟩], call.type.Normal className :=
    List.forall_mem_append.mpr ⟨normal, List.forall_mem_singleton.mpr .never⟩
  have others : ∀ call ∈ without id calls, call.type.Normal className :=
    fun call mem => normal call (List.mem_of_mem_filter mem)
  exact (consistent_empty.run _).same_of_extent_eq (consistent_empty.run _)
    (normal_empty.run retracted) (normal_empty.run others) (sources_run_ne_nil (.inr (by simp)))
    (sources_run_ne_nil (.inr remain)) (extent_retract id calls)

/-- What absorbed the other source was taken back, so that one type is left, which combines alone. -/
theorem never_retracts_absorbing :
    (empty.run [⟨2, .named "int" []⟩, ⟨1, .ofValue (.int 3)⟩, ⟨2, .unknown⟩]).combined = .unknown ∧
    (empty.run [⟨2, .named "int" []⟩, ⟨1, .ofValue (.int 3)⟩, ⟨2, .unknown⟩, ⟨2, .never⟩]).combined =
      .ofValue (.int 3) ∧
    (empty.run [⟨2, .named "int" []⟩, ⟨1, .ofValue (.int 3)⟩, ⟨2, .unknown⟩,
        ⟨2, .never⟩]).combined.same (empty.run [⟨1, .ofValue (.int 3)⟩]).combined = true := by
  have int : (Ty.named "int" []).Normal (fun _ => True) := .named trivial (List.forall_mem_nil _)
  have normal : ∀ call ∈ [⟨2, .named "int" []⟩, ⟨1, .ofValue (.int 3)⟩, (⟨2, .unknown⟩ : Source)],
      call.type.Normal (fun _ => True) := by
    simp [int, Ty.ofValue, Ty.Normal.literal, Ty.Normal.unknown]
  refine ⟨rfl, rfl, never_retracts _ 2 normal ?_⟩
  exact ⟨⟨1, .ofValue (.int 3)⟩, by simp, by decide⟩

end TypeLedger.Accumulator
