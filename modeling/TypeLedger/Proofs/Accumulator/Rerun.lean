import TypeLedger.Proofs.Accumulator.LastWrite

/-! Making the same submissions again. The sources stay as they are, spelling included, and from then
on every submission has the effect it had before, up to the order of members in the combination. -/
namespace TypeLedger.Accumulator

variable {a b c : Accumulator} {id : Int} {type t u latest : Ty}
  {ts earlier middle block block' : List Ty} {calls sources sources' : List Source}

/-- The sources are equal and the combinations the same. -/
structure Agrees (a b : Accumulator) : Prop where
  sources : a.sources = b.sources
  combined : a.combined.same b.combined = true

theorem Agrees.refl (a : Accumulator) : a.Agrees a := ⟨rfl, Ty.same_refl _⟩

theorem Agrees.trans (h : a.Agrees b) (k : b.Agrees c) : a.Agrees c :=
  ⟨h.sources.trans k.sources, Ty.same_trans h.combined k.combined⟩

theorem agrees_recombine {x y : Ty} (h : x.same y = true) (sources : List Source) (event : Event) :
    (recombine sources x event).next.Agrees (recombine sources y event).next ∧
      (recombine sources x event).changed = (recombine sources y event).changed := by
  -- The new combination is the same as both or as neither.
  have alike := Ty.same_congr_right h (Ty.combine (sources.map Source.type))
  rcases recombine_combined sources x event with ⟨same, changed, kept⟩ | ⟨same, changed, new⟩ <;>
    rcases recombine_combined sources y event with ⟨same', changed', kept'⟩ | ⟨same', changed', new'⟩
  · exact ⟨⟨by simp, by rw [kept, kept', h]⟩, changed.trans changed'.symm⟩
  · rw [same, same'] at alike
    exact Bool.noConfusion alike
  · rw [same, same'] at alike
    exact Bool.noConfusion alike
  · exact ⟨⟨by simp, by rw [new, new', Ty.same_refl]⟩, changed.trans changed'.symm⟩

theorem Agrees.submit (h : a.Agrees b) (id : Int) (type : Ty) :
    (a.submit id type).next.Agrees (b.submit id type).next ∧
      (a.submit id type).changed = (b.submit id type).changed := by
  simp only [Accumulator.submit, ← h.sources]
  split
  · exact agrees_recombine h.combined _ _
  · split
    · exact ⟨h, rfl⟩
    · exact agrees_recombine h.combined _ _

theorem eq_of_block (all : ∀ v ∈ t :: block, v.same latest = true)
    (longest : ∀ v ∈ (earlier ++ middle).getLast?, ¬v.same latest = true)
    (split : t :: block = middle ++ u :: block') : t = u := by
  rcases List.eq_nil_or_concat middle with rfl | ⟨before, v, rfl⟩
  · exact (List.cons.inj split).1
  · have mem : v ∈ t :: block := split ▸ by simp
    exact absurd (all v mem) (longest v (by simp [← List.append_assoc]))

theorem Settled.unique (h : Settled ts t) (k : Settled ts u) : t = u := by
  obtain ⟨earlier, block, latest, rfl, last, all, longest⟩ := h
  obtain ⟨earlier', block', latest', split, last', all', longest'⟩ := k
  have ends := congrArg List.getLast? split
  rw [List.getLast?_append_of_ne_nil _ (by simp), List.getLast?_append_of_ne_nil _ (by simp), last,
    last'] at ends
  obtain rfl := Option.some.inj ends
  rcases List.append_eq_append_iff.mp split with ⟨middle, rfl, rest⟩ | ⟨middle, rfl, rest⟩
  · exact eq_of_block all longest' rest
  · exact (eq_of_block all' longest rest).symm

/-- The block at the end of a list is that at the end of the list made twice, or is all of it. -/
theorem Settled.append_self (h : Settled ts t) : Settled (ts ++ ts) t := by
  obtain ⟨earlier, block, latest, rfl, last, all, longest⟩ := h
  by_cases whole : earlier = []
  · subst whole
    refine ⟨[], block ++ t :: block, latest, by simp, ?_, ?_, by simp⟩
    · rw [← List.cons_append, List.getLast?_append_of_ne_nil _ (by simp), last]
    · intro v mem
      rw [← List.cons_append, List.mem_append, or_self] at mem
      exact all v mem
  · refine ⟨earlier ++ t :: block ++ earlier, block, latest, by simp, last, all, ?_⟩
    rwa [List.getLast?_append_of_ne_nil _ whole]

theorem sources_eq (ids : sources.map Source.id = sources'.map Source.id)
    (types : ∀ s ∈ sources, ∀ s' ∈ sources', s.id = s'.id → s.type = s'.type) :
    sources = sources' := by
  induction sources generalizing sources' with
  | nil => exact (List.map_eq_nil_iff.mp ids.symm).symm
  | cons s rest ih =>
    obtain ⟨s', rest', rfl, named, others⟩ := List.map_eq_cons_iff.mp ids.symm
    have first : s = s' := by
      have typed := types s List.mem_cons_self s' List.mem_cons_self named.symm
      cases s
      cases s'
      simp_all
    rw [first, ih others.symm fun s hs s' hs' =>
      types s (List.mem_cons_of_mem _ hs) s' (List.mem_cons_of_mem _ hs')]

theorem eraseDups_append_self (ids : List Int) : (ids ++ ids).eraseDups = ids.eraseDups := by
  have none : ids.removeAll ids = [] :=
    List.filter_eq_nil_iff.mpr fun id mem => by simpa using mem
  rw [List.eraseDups_append, none, List.eraseDups_nil, List.append_nil]

/-- Submissions that are made twice leave what they leave when they are made once. -/
theorem agrees_run_self (calls : List Source) :
    (empty.run calls).Agrees ((empty.run calls).run calls) := by
  rw [← run_append]
  have once := reflects_run calls
  have twice := reflects_run (calls ++ calls)
  have sources : (empty.run calls).sources = (empty.run (calls ++ calls)).sources := by
    apply sources_eq
    · rw [once.ids, twice.ids, List.map_append, eraseDups_append_self]
    · intro s hs s' hs' named
      have settled := twice.types s' hs'
      rw [← named, history_append] at settled
      exact (once.types s hs).append_self.unique settled
  refine ⟨sources, ?_⟩
  by_cases none : calls = []
  · subst none
    rfl
  · have types : (empty.run calls).types = (empty.run (calls ++ calls)).types :=
      congrArg (List.map Source.type) sources
    have again := twice.combined (by simpa using none)
    rw [← types] at again
    exact Ty.same_trans (once.combined none) (Ty.same_symm again)

/-- The source has the type already. -/
def Holds (a : Accumulator) (id : Int) (type : Ty) : Prop :=
  ∃ s ∈ a.sources, s.id = id ∧ s.type.same type = true

theorem Holds.submit (h : a.Holds id type) (unique : (a.sources.map Source.id).Nodup) :
    a.submit id type = ⟨a, false, []⟩ := by
  obtain ⟨s, mem, named, same⟩ := h
  rcases submit_cases a id type with ⟨_, _, _, _, e⟩ | ⟨s', mem', named', other, _⟩ | ⟨absent, _⟩
  · exact e
  · obtain rfl := List.inj_on_of_nodup_map unique mem' mem (named'.trans named.symm)
    rw [same] at other
    exact Bool.noConfusion other
  · exact absurd named (absent s mem)

/-- After submissions that agree on the type of each identifier, each is held. -/
theorem holds_run (alike : ∀ x ∈ calls, ∀ y ∈ calls, x.id = y.id → x.type.same y.type = true) :
    ∀ call ∈ calls, (empty.run calls).Holds call.id call.type := by
  intro call mem
  have reflects := reflects_run calls
  obtain ⟨s, hs, named⟩ := reflects.mem_ids.mpr (List.mem_map_of_mem mem)
  obtain ⟨earlier, mem', named', type⟩ := mem_history.mp (reflects.types s hs).mem
  exact ⟨s, hs, named, type ▸ alike earlier mem' call mem (named'.trans named)⟩

end TypeLedger.Accumulator
