import TypeLedger.Accumulator
import TypeLedger.Proofs.Ty.Same

/-! One submission to an accumulator. It does one of three things, and the combination that is kept
stays the combination of the sources up to sameness. -/
namespace TypeLedger.Accumulator

variable {a : Accumulator} {id : Int} {type : Ty} {sources : List Source} {combined : Ty}
  {event : Event}

/-- The types of the sources in order. -/
def types (a : Accumulator) : List Ty := a.sources.map Source.type

@[simp] theorem recombine_sources : (recombine sources combined event).next.sources = sources := by
  simp only [recombine]
  split <;> rfl

/-- Either the combination so far is the same and stays, or the new one takes its place. -/
theorem recombine_combined (sources : List Source) (combined : Ty) (event : Event) :
    ((Ty.combine (sources.map Source.type)).same combined = true ∧
      (recombine sources combined event).changed = false ∧
      (recombine sources combined event).next.combined = combined) ∨
    ((Ty.combine (sources.map Source.type)).same combined = false ∧
      (recombine sources combined event).changed = true ∧
      (recombine sources combined event).next.combined =
        Ty.combine (sources.map Source.type)) := by
  simp only [recombine]
  cases (Ty.combine (sources.map Source.type)).same combined with
  | true => exact .inl ⟨rfl, rfl, rfl⟩
  | false => exact .inr ⟨rfl, rfl, rfl⟩

theorem recombine_same : (recombine sources combined event).next.combined.same
    (Ty.combine (sources.map Source.type)) = true := by
  rcases recombine_combined sources combined event with ⟨same, _, kept⟩ | ⟨_, _, new⟩
  · rw [kept]
    exact Ty.same_symm same
  · rw [new]
    exact Ty.same_refl _

/-- What a submission does: nothing, or a new type for a source, or a new source. -/
theorem submit_cases (a : Accumulator) (id : Int) (type : Ty) :
    (∃ s ∈ a.sources, s.id = id ∧ s.type.same type = true ∧ a.submit id type = ⟨a, false, []⟩) ∨
    (∃ s ∈ a.sources, s.id = id ∧ s.type.same type = false ∧ a.submit id type =
      recombine (retype id type a.sources) a.combined (.replaced id s.type type)) ∨
    ((∀ s ∈ a.sources, s.id ≠ id) ∧ a.submit id type =
      recombine (a.sources ++ [⟨id, type⟩]) a.combined (.added id type)) := by
  unfold submit
  cases found : a.sources.find? (·.id = id) with
  | none =>
    have absent : ∀ s ∈ a.sources, s.id ≠ id := by simpa using found
    exact .inr (.inr ⟨absent, rfl⟩)
  | some s =>
    have mem := List.mem_of_find?_eq_some found
    have named : s.id = id := by simpa using List.find?_some found
    cases same : s.type.same type with
    | true => exact .inl ⟨s, mem, named, same, by simp [same]⟩
    | false => exact .inr (.inl ⟨s, mem, named, same, by simp [same]⟩)

/-- The change reported is a change of the combination up to sameness. -/
theorem changed_iff (a : Accumulator) (id : Int) (type : Ty) :
    (a.submit id type).changed = true ↔
      ¬a.combined.same (a.submit id type).next.combined = true := by
  have reports (sources : List Source) (event : Event) :
      (recombine sources a.combined event).changed = true ↔
        ¬a.combined.same (recombine sources a.combined event).next.combined = true := by
    rcases recombine_combined sources a.combined event with ⟨_, changed, kept⟩ | ⟨same, changed, new⟩
    · simp [changed, kept, Ty.same_refl]
    · simp [changed, new, Ty.same_comm a.combined, same]
  rcases submit_cases a id type with ⟨_, _, _, _, h⟩ | ⟨_, _, _, _, h⟩ | ⟨_, h⟩
  · simp [h, Ty.same_refl]
  · exact h ▸ reports _ _
  · exact h ▸ reports _ _

theorem combined_of_not_changed (h : (a.submit id type).changed = false) :
    (a.submit id type).next.combined = a.combined := by
  have kept (sources : List Source) (event : Event)
      (h : (recombine sources a.combined event).changed = false) :
      (recombine sources a.combined event).next.combined = a.combined := by
    rcases recombine_combined sources a.combined event with ⟨_, _, kept⟩ | ⟨_, changed, _⟩
    · exact kept
    · exact absurd (changed.symm.trans h) Bool.noConfusion
  rcases submit_cases a id type with ⟨_, _, _, _, e⟩ | ⟨_, _, _, _, e⟩ | ⟨_, e⟩
  · simp [e]
  · exact e ▸ kept _ _ (e ▸ h)
  · exact e ▸ kept _ _ (e ▸ h)

theorem retype_ids (id : Int) (type : Ty) (sources : List Source) :
    (retype id type sources).map Source.id = sources.map Source.id := by
  unfold retype
  rw [List.map_map]
  apply List.map_congr_left
  intro s _
  by_cases h : s.id = id <;> simp [h]

theorem mem_retype {s : Source} : s ∈ retype id type sources ↔
    (s = ⟨id, type⟩ ∧ ∃ old ∈ sources, old.id = id) ∨ (s ∈ sources ∧ s.id ≠ id) := by
  unfold retype
  rw [List.mem_map]
  constructor
  · rintro ⟨old, mem, rfl⟩
    by_cases h : old.id = id
    · rw [if_pos h]
      exact .inl ⟨rfl, old, mem, h⟩
    · rw [if_neg h]
      exact .inr ⟨mem, h⟩
  · rintro (⟨rfl, old, mem, h⟩ | ⟨mem, h⟩)
    · exact ⟨old, mem, if_pos h⟩
    · exact ⟨s, mem, if_neg h⟩

/-- The combination that is kept is that of the sources, up to sameness. Without sources nothing is
known. -/
structure Consistent (a : Accumulator) : Prop where
  unique : (a.sources.map Source.id).Nodup
  unknown : a.sources = [] → a.combined = .unknown
  combined : a.sources ≠ [] → a.combined.same (Ty.combine a.types) = true

theorem consistent_empty : Consistent empty where
  unique := .nil
  unknown _ := rfl
  combined h := absurd rfl h

theorem sources_ne_nil (a : Accumulator) (id : Int) (type : Ty) :
    (a.submit id type).next.sources ≠ [] := by
  rcases submit_cases a id type with ⟨s, mem, _, _, h⟩ | ⟨s, mem, _, _, h⟩ | ⟨_, h⟩
  · exact h ▸ List.ne_nil_of_mem mem
  · rw [h, recombine_sources, retype]
    exact fun none => List.ne_nil_of_mem mem (List.map_eq_nil_iff.mp none)
  · rw [h, recombine_sources]
    exact List.append_ne_nil_of_right_ne_nil _ (by simp)

theorem Consistent.submit (h : Consistent a) (id : Int) (type : Ty) :
    Consistent (a.submit id type).next where
  unknown none := absurd none (sources_ne_nil a id type)
  unique := by
    rcases submit_cases a id type with ⟨_, _, _, _, e⟩ | ⟨_, _, _, _, e⟩ | ⟨absent, e⟩
    · exact e ▸ h.unique
    · rw [e, recombine_sources, retype_ids]
      exact h.unique
    · rw [e, recombine_sources, List.map_append, List.map_cons, List.map_nil]
      refine List.nodup_append.mpr ⟨h.unique, by simp, ?_⟩
      intro other mem new same
      obtain ⟨s, hs, rfl⟩ := List.mem_map.mp mem
      obtain rfl := List.mem_singleton.mp same
      exact absent s hs
  combined _ := by
    rcases submit_cases a id type with ⟨s, mem, _, _, e⟩ | ⟨_, _, _, _, e⟩ | ⟨_, e⟩
    · exact e ▸ h.combined (List.ne_nil_of_mem mem)
    · rw [e, types, recombine_sources]
      exact recombine_same
    · rw [e, types, recombine_sources]
      exact recombine_same

/-- The accumulator after submissions, each of which is an identifier with a type. -/
def run (a : Accumulator) (calls : List Source) : Accumulator :=
  calls.foldl (fun a call => (a.submit call.id call.type).next) a

theorem run_append (a : Accumulator) (xs ys : List Source) :
    a.run (xs ++ ys) = (a.run xs).run ys := List.foldl_append

theorem run_concat (a : Accumulator) (calls : List Source) (call : Source) :
    a.run (calls ++ [call]) = ((a.run calls).submit call.id call.type).next :=
  List.foldl_concat ..

theorem Consistent.run (h : Consistent a) (calls : List Source) : Consistent (a.run calls) := by
  induction calls generalizing a with
  | nil => exact h
  | cons call calls ih => exact ih (h.submit call.id call.type)

end TypeLedger.Accumulator
