import TypeLedger.Proofs.Accumulator.NormalForm
import TypeLedger.Proofs.Ty.Order

/-! Runs of submissions that only widen. Each combination is the join of the one before it and the
type submitted, so the combinations go up, and one that has been left never comes back. -/
namespace TypeLedger.Accumulator

variable {className : Text → Prop} {a : Accumulator} {call : Source} {calls xs ys : List Source}

/-- The type that the accumulator has for the source of the submission, if it has one, adds nothing
to the type submitted. -/
def Widens (a : Accumulator) (call : Source) : Prop :=
  ∀ s ∈ a.sources, s.id = call.id → s.type.Le call.type

/-- The submissions are of types in normal form, and each widens what the ones before it left. -/
inductive Widening (className : Text → Prop) : Accumulator → List Source → Prop
  | nil {a : Accumulator} : Widening className a []
  | cons {a : Accumulator} {call : Source} {calls : List Source} :
      call.type.Normal className → a.Widens call →
      Widening className (a.submit call.id call.type).next calls → Widening className a (call :: calls)

/-- What belongs to the type of some source. -/
def extent (sources : List Source) : Set Ty := ⋃ s ∈ sources, s.type.extent

theorem mem_extent {p : Ty} {sources : List Source} :
    p ∈ extent sources ↔ ∃ s ∈ sources, p ∈ s.type.extent := by
  simp [extent]

theorem Consistent.extent_combined (h : Consistent a) (normal : a.Normal className)
    (some : a.sources ≠ []) : a.combined.extent = extent a.sources := by
  have types : ∀ t ∈ a.types, t.Normal className := List.forall_mem_map.mpr normal.sources
  rw [Ty.extent_eq_of_same (h.combined some), Ty.extent_combine types]
  ext p
  simp [mem_extent, Accumulator.types]

/-- A submission that widens adds the values of its type to those of the sources, and takes none
away from them. -/
theorem extent_submit (normal : a.Normal className) (type : call.type.Normal className)
    (widens : a.Widens call) :
    extent (a.submit call.id call.type).next.sources = extent a.sources ∪ call.type.extent := by
  have below (s : Source) (mem : s ∈ a.sources) (named : s.id = call.id) :
      s.type.extent ⊆ call.type.extent :=
    ((normal.sources s mem).le_iff type).mp (widens s mem named)
  ext p
  rw [Set.mem_union, mem_extent, mem_extent]
  rcases submit_cases a call.id call.type with
    ⟨s, mem, _, same, e⟩ | ⟨s, mem, named, _, e⟩ | ⟨_, e⟩ <;> rw [e]
  · refine ⟨.inl, fun h => h.elim id fun new => ⟨s, mem, ?_⟩⟩
    rwa [Ty.extent_eq_of_same same]
  · rw [recombine_sources]
    constructor
    · rintro ⟨s', mem', belongs⟩
      rcases mem_retype.mp mem' with ⟨rfl, _⟩ | ⟨old, _⟩
      · exact .inr belongs
      · exact .inl ⟨s', old, belongs⟩
    · have replaced : ⟨call.id, call.type⟩ ∈ retype call.id call.type a.sources :=
        mem_retype.mpr (.inl ⟨rfl, s, mem, named⟩)
      rintro (⟨s', mem', belongs⟩ | belongs)
      · by_cases here : s'.id = call.id
        · exact ⟨_, replaced, below s' mem' here belongs⟩
        · exact ⟨s', mem_retype.mpr (.inr ⟨mem', here⟩), belongs⟩
      · exact ⟨_, replaced, belongs⟩
  · rw [recombine_sources]
    simp only [List.mem_append, List.mem_singleton, or_and_right, exists_or, exists_eq_left]

/-- The combination after a submission that widens is the join of the one before and the type. -/
theorem extent_combined_submit (h : Consistent a) (normal : a.Normal className)
    (some : a.sources ≠ []) (type : call.type.Normal className) (widens : a.Widens call) :
    (a.submit call.id call.type).next.combined.extent = a.combined.extent ∪ call.type.extent := by
  rw [(h.submit call.id call.type).extent_combined (normal.submit call.id type)
    (sources_ne_nil a call.id call.type), h.extent_combined normal some,
    extent_submit normal type widens]

theorem Widening.append (h : Widening className a (xs ++ ys)) :
    Widening className a xs ∧ Widening className (a.run xs) ys := by
  induction xs generalizing a with
  | nil => exact ⟨.nil, h⟩
  | cons call xs ih =>
    cases h with
    | cons type widens rest => exact ⟨.cons type widens (ih rest).1, (ih rest).2⟩

theorem Widening.normal_run (h : Widening className a calls) (normal : a.Normal className) :
    (a.run calls).Normal className := by
  induction h with
  | nil => exact normal
  | cons type _ _ ih => exact ih (normal.submit _ type)

theorem sources_run_ne_nil (some : a.sources ≠ [] ∨ calls ≠ []) : (a.run calls).sources ≠ [] := by
  induction calls generalizing a with
  | nil => exact some.resolve_right (· rfl)
  | cons call calls ih => exact ih (.inl (sources_ne_nil a call.id call.type))

/-- From one submission on, the combination goes up. -/
theorem Widening.extent_subset_run (h : Widening className a calls) (consistent : Consistent a)
    (normal : a.Normal className) (some : a.sources ≠ []) :
    a.combined.extent ⊆ (a.run calls).combined.extent := by
  induction h with
  | nil => exact subset_rfl
  | @cons a call calls type widens _ ih =>
    have step := extent_combined_submit consistent normal some type widens
    have up : a.combined.extent ⊆ (a.submit call.id call.type).next.combined.extent :=
      step ▸ Set.subset_union_left
    exact up.trans (ih (consistent.submit _ _) (normal.submit _ type) (sources_ne_nil _ _ _))

theorem Widening.extent_subset (h : Widening className empty calls) (some : xs ≠ [])
    (earlier : xs <+: ys) (later : ys <+: calls) :
    (empty.run xs).combined.extent ⊆ (empty.run ys).combined.extent := by
  obtain ⟨middle, rfl⟩ := earlier
  obtain ⟨rest, rfl⟩ := later
  obtain ⟨before, after⟩ := h.append.1.append
  rw [run_append]
  exact after.extent_subset_run (consistent_empty.run xs) (before.normal_run normal_empty)
    (sources_run_ne_nil (.inr some))

theorem Widening.normal_prefix (h : Widening className empty calls) (earlier : xs <+: calls) :
    (empty.run xs).combined.Normal className := by
  obtain ⟨rest, rfl⟩ := earlier
  exact (h.append.1.normal_run normal_empty).combined

theorem Widening.joins (h : Widening className empty calls) (some : xs ≠ [])
    (earlier : xs ++ [call] <+: calls) :
    (empty.run (xs ++ [call])).combined.same
      (Ty.combine [(empty.run xs).combined, call.type]) = true := by
  obtain ⟨rest, rfl⟩ := earlier
  obtain ⟨before, last⟩ := h.append.1.append
  cases last with
  | cons type widens =>
    have normal := before.normal_run normal_empty
    have joined : (Ty.combine [(empty.run xs).combined, call.type]).Normal className :=
      .combine (by simp [normal.combined, type])
    rw [run_concat]
    apply (normal.submit call.id type).combined.same_of_extent_eq joined
    rw [extent_combined_submit (consistent_empty.run xs) normal (sources_run_ne_nil (.inr some))
      type widens, Ty.extent_combine_pair normal.combined type]

/-- A combination that was left for another one is not found again. -/
theorem Widening.not_same (h : Widening className empty calls) {zs : List Source} (some : xs ≠ [])
    (earlier : xs <+: ys) (next : ys ++ [call] <+: zs) (later : zs <+: calls)
    (changed : ((empty.run ys).submit call.id call.type).changed = true) :
    ¬(empty.run xs).combined.same (empty.run zs).combined = true := by
  intro back
  have now : ys ++ [call] <+: calls := next.trans later
  have before : ys <+: calls := (List.prefix_append ys [call]).trans now
  have someYs : ys ≠ [] := mt (fun none => List.prefix_nil.mp (none ▸ earlier)) some
  have up := h.extent_subset some earlier before
  have step := h.extent_subset someYs (List.prefix_append ys [call]) now
  have rest := h.extent_subset (List.append_ne_nil_of_left_ne_nil someYs [call]) next later
  rw [← Ty.extent_eq_of_same back] at rest
  have stays : (empty.run ys).combined.extent = (empty.run (ys ++ [call])).combined.extent :=
    step.antisymm (rest.trans up)
  have same := (h.normal_prefix before).same_of_extent_eq (h.normal_prefix now) stays
  rw [run_concat] at same
  exact (changed_iff _ _ _).mp changed same

/-- In a run that widens, every submission after the first one joins its type to the combination,
whether its source is new or not. From the first submission on the combinations go up, and after a
change none is the same as one held before it. -/
theorem widening_never_oscillates (h : Widening className empty calls) :
    (∀ xs call, xs ≠ [] → xs ++ [call] <+: calls →
      (empty.run (xs ++ [call])).combined.same
        (Ty.combine [(empty.run xs).combined, call.type]) = true) ∧
    (∀ xs ys, xs ≠ [] → xs <+: ys → ys <+: calls →
      (empty.run xs).combined.Le (empty.run ys).combined) ∧
    ∀ xs ys call zs, xs ≠ [] → xs <+: ys → ys ++ [call] <+: zs → zs <+: calls →
      ((empty.run ys).submit call.id call.type).changed = true →
      ¬(empty.run xs).combined.same (empty.run zs).combined = true := by
  refine ⟨fun _ _ => h.joins, ?_, fun _ _ _ _ => h.not_same⟩
  intro xs ys some earlier later
  apply ((h.normal_prefix (earlier.trans later)).le_iff (h.normal_prefix later)).mpr
  exact h.extent_subset some earlier later

/-- A literal widens to its class, and `None` comes in between. -/
theorem widening_never_oscillates_literal :
    let calls : List Source := [⟨1, .ofValue (.int 3)⟩, ⟨2, .null⟩, ⟨1, .named "int" []⟩]
    Widening (fun _ => True) empty calls ∧
    (empty.run calls).combined.same
      (.combine [(empty.run (calls.take 2)).combined, .named "int" []]) = true ∧
    (empty.run (calls.take 1)).combined.Le (empty.run calls).combined ∧
    ((empty.run (calls.take 2)).submit 1 (.named "int" [])).changed = true ∧
    ¬(empty.run (calls.take 1)).combined.same (empty.run calls).combined = true := by
  intro calls
  have int : (Ty.named "int" []).Normal (fun _ => True) := .named trivial (List.forall_mem_nil _)
  have widening : Widening (fun _ => True) empty calls := by
    refine .cons (.literal _) ?_ (.cons .null ?_ (.cons int ?_ .nil)) <;>
      (unfold Widens; decide)
  have changed : ((empty.run (calls.take 2)).submit 1 (.named "int" [])).changed = true := by decide
  obtain ⟨joins, up, apart⟩ := widening_never_oscillates widening
  have whole := List.prefix_refl calls
  refine ⟨widening, joins (calls.take 2) _ (by simp [calls]) whole,
    up (calls.take 1) calls (by simp [calls]) (List.take_prefix 1 calls) whole, changed, ?_⟩
  exact apart (calls.take 1) (calls.take 2) ⟨1, .named "int" []⟩ calls (by simp [calls])
    (List.take_prefix 1 (calls.take 2)) whole whole changed

end TypeLedger.Accumulator
