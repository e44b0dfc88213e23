import TypeLedger.Proofs.Accumulator.Submit

/-! A property of the sources of an accumulator and one of its combination. Submissions of such sources
keep both, where combinations of such sources have theirs, and tell of nothing without them. -/
namespace TypeLedger.Accumulator

variable {S : Source → Prop} {P : Ty → Prop} {a : Accumulator} {sources : List Source}
  {combined : Ty} {event : Event}

/-- The property of combinations holds where nothing is known, and sources with theirs give it. -/
structure Carried (S : Source → Prop) (P : Ty → Prop) : Prop where
  unknown : P .unknown
  combine : ∀ sources : List Source, (∀ s ∈ sources, S s) → P (.combine (sources.map Source.type))

/-- All sources have the one property, and the combination has the other one. -/
structure All (S : Source → Prop) (P : Ty → Prop) (a : Accumulator) : Prop where
  combined : P a.combined
  sources : ∀ s ∈ a.sources, S s

/-- The sources and the combinations that the event tells of have the properties. -/
def Event.All (S : Source → Prop) (P : Ty → Prop) : Event → Prop
  | added id type => S ⟨id, type⟩
  | replaced id old new => S ⟨id, old⟩ ∧ S ⟨id, new⟩
  | combinedChanged old new => P old ∧ P new

/-- The properties hold after the submission, and for what was done. -/
structure Outcome.All (S : Source → Prop) (P : Ty → Prop) (o : Outcome) : Prop where
  next : o.next.All S P
  events : ∀ e ∈ o.events, e.All S P

theorem all_empty (carried : Carried S P) : empty.All S P where
  combined := carried.unknown
  sources := List.forall_mem_nil _

theorem all_recombine (carried : Carried S P) (hs : ∀ s ∈ sources, S s) (hc : P combined)
    (he : event.All S P) : (recombine sources combined event).All S P := by
  have new := carried.combine sources hs
  rw [recombine]
  split
  · exact ⟨⟨hc, hs⟩, List.forall_mem_singleton.mpr he⟩
  · exact ⟨⟨new, hs⟩, List.forall_mem_cons.mpr ⟨he, List.forall_mem_singleton.mpr ⟨hc, new⟩⟩⟩

theorem All.submit (h : a.All S P) (carried : Carried S P) {s : Source} (hs : S s) :
    (a.submit s.id s.type).All S P := by
  rcases submit_cases a s.id s.type with ⟨_, _, _, _, e⟩ | ⟨old, mem, same, _, e⟩ | ⟨_, e⟩
  · rw [e]
    exact ⟨h, List.forall_mem_nil _⟩
  · rw [e]
    refine all_recombine carried (fun s' mem' => ?_) h.combined ⟨same ▸ h.sources old mem, hs⟩
    rcases mem_retype.mp mem' with ⟨rfl, _⟩ | ⟨mem', _⟩
    · exact hs
    · exact h.sources s' mem'
  · rw [e]
    refine all_recombine carried ?_ h.combined hs
    exact List.forall_mem_append.mpr ⟨h.sources, List.forall_mem_singleton.mpr hs⟩

end TypeLedger.Accumulator
