import TypeLedger.Proofs.Accumulator.Submit
import Mathlib.Data.List.Induction
import Mathlib.Data.List.Nodup

/-! Runs of submissions against the plain list of what was submitted. An accumulator keeps the last
type of each identifier, spelled as in the first of the submissions since it was last a different
one, and says of each submission whether the combination changed. -/
namespace TypeLedger.Accumulator

variable {a : Accumulator} {calls : List Source} {id : Int} {ts : List Ty} {t u : Ty}

/-- The types submitted for an identifier, in order. -/
def history (id : Int) (calls : List Source) : List Ty :=
  (calls.filter (·.id = id)).map Source.type

theorem history_append (id : Int) (xs ys : List Source) :
    history id (xs ++ ys) = history id xs ++ history id ys := by
  simp [history]

theorem history_concat_self (calls : List Source) (call : Source) :
    history call.id (calls ++ [call]) = history call.id calls ++ [call.type] := by
  simp [history]

theorem history_concat_other {call : Source} (h : id ≠ call.id) :
    history id (calls ++ [call]) = history id calls := by
  simp [history, h.symm]

theorem mem_history : t ∈ history id calls ↔ ∃ call ∈ calls, call.id = id ∧ call.type = t := by
  simp [history, and_assoc]

/-- The first type of the longest block at the end of a list whose types are all the same as the
last one. -/
def Settled (ts : List Ty) (t : Ty) : Prop :=
  ∃ earlier block latest, ts = earlier ++ t :: block ∧ (t :: block).getLast? = some latest ∧
    (∀ u ∈ t :: block, u.same latest = true) ∧ ∀ u ∈ earlier.getLast?, ¬u.same latest = true

theorem settled_concat_same (h : Settled ts t) (same : t.same u = true) :
    Settled (ts ++ [u]) t := by
  obtain ⟨earlier, block, latest, rfl, _, all, longest⟩ := h
  have joined : latest.same u = true :=
    Ty.same_trans (Ty.same_symm (all t List.mem_cons_self)) same
  have last : (t :: (block ++ [u])).getLast? = some u := by
    rw [← List.cons_append]
    exact List.getLast?_concat
  refine ⟨earlier, block ++ [u], u, by simp, last, ?_, ?_⟩
  · intro v hv
    rcases List.mem_append.mp (List.cons_append ▸ hv) with old | new
    · exact Ty.same_trans (all v old) joined
    · obtain rfl := List.mem_singleton.mp new
      exact Ty.same_refl v
  · intro v hv
    rw [← Ty.same_congr_right joined v]
    exact longest v hv

theorem settled_concat_other (h : Settled ts t) (other : t.same u = false) :
    Settled (ts ++ [u]) u := by
  obtain ⟨earlier, block, latest, rfl, last, all, _⟩ := h
  refine ⟨earlier ++ t :: block, [], u, rfl, rfl, ?_, ?_⟩
  · intro v hv
    obtain rfl := List.mem_singleton.mp hv
    exact Ty.same_refl v
  · intro v hv same
    rw [List.getLast?_append_of_ne_nil _ (by simp), last] at hv
    obtain rfl := Option.some.inj hv
    have joined := Ty.same_trans (all t List.mem_cons_self) same
    rw [other] at joined
    exact Bool.noConfusion joined

theorem settled_singleton (t : Ty) : Settled [t] t := by
  refine ⟨[], [], t, rfl, rfl, ?_, by simp⟩
  simp [Ty.same_refl]

theorem Settled.mem (h : Settled ts t) : t ∈ ts := by
  obtain ⟨earlier, block, _, rfl, _⟩ := h
  simp

theorem Settled.same_latest (h : Settled ts t) : ∃ u ∈ ts.getLast?, t.same u = true := by
  obtain ⟨earlier, block, latest, rfl, last, all, _⟩ := h
  refine ⟨latest, ?_, all t List.mem_cons_self⟩
  rw [List.getLast?_append_of_ne_nil _ (by simp)]
  exact last

/-- What an accumulator keeps of the submissions made to it. -/
structure Reflects (calls : List Source) (a : Accumulator) : Prop where
  ids : a.sources.map Source.id = (calls.map Source.id).eraseDups
  types : ∀ s ∈ a.sources, Settled (history s.id calls) s.type
  unknown : calls = [] → a.combined = .unknown
  combined : calls ≠ [] → a.combined.same (Ty.combine a.types) = true

theorem eraseDups_concat_mem {ids : List Int} (h : id ∈ ids) :
    (ids ++ [id]).eraseDups = ids.eraseDups := by
  rw [List.eraseDups_append]
  simp [List.removeAll, h]

theorem eraseDups_concat_new {ids : List Int} (h : id ∉ ids) :
    (ids ++ [id]).eraseDups = ids.eraseDups ++ [id] := by
  rw [List.eraseDups_append]
  simp [List.removeAll, h, List.eraseDups_cons]

theorem Reflects.mem_ids (h : Reflects calls a) :
    (∃ s ∈ a.sources, s.id = id) ↔ id ∈ calls.map Source.id := by
  rw [← List.mem_eraseDups, ← h.ids, List.mem_map]

theorem Reflects.ids_submit (h : Reflects calls a) (call : Source) :
    (a.submit call.id call.type).next.sources.map Source.id =
      ((calls ++ [call]).map Source.id).eraseDups := by
  rw [List.map_append, List.map_singleton]
  rcases submit_cases a call.id call.type with
    ⟨s, mem, named, _, e⟩ | ⟨s, mem, named, _, e⟩ | ⟨absent, e⟩
  · rw [e, eraseDups_concat_mem (h.mem_ids.mp ⟨s, mem, named⟩)]
    exact h.ids
  · rw [e, recombine_sources, retype_ids, eraseDups_concat_mem (h.mem_ids.mp ⟨s, mem, named⟩)]
    exact h.ids
  · have new : call.id ∉ calls.map Source.id := by
      intro old
      obtain ⟨s, mem, named⟩ := h.mem_ids.mpr old
      exact absent s mem named
    rw [e, recombine_sources, List.map_append, h.ids, eraseDups_concat_new new, List.map_singleton]

theorem Reflects.types_submit (h : Reflects calls a) (unique : (a.sources.map Source.id).Nodup)
    (call : Source) : ∀ s ∈ (a.submit call.id call.type).next.sources,
      Settled (history s.id (calls ++ [call])) s.type := by
  have other (s : Source) (mem : s ∈ a.sources) (different : s.id ≠ call.id) :
      Settled (history s.id (calls ++ [call])) s.type := by
    rw [history_concat_other different]
    exact h.types s mem
  rcases submit_cases a call.id call.type with
    ⟨s, mem, named, same, e⟩ | ⟨s, mem, named, different, e⟩ | ⟨absent, e⟩
  · rw [e]
    intro s' mem'
    by_cases here : s'.id = call.id
    · obtain rfl := List.inj_on_of_nodup_map unique mem' mem (here.trans named.symm)
      rw [here, history_concat_self, ← here]
      exact settled_concat_same (h.types s' mem) same
    · exact other s' mem' here
  · rw [e, recombine_sources]
    intro s' mem'
    rcases mem_retype.mp mem' with ⟨rfl, _⟩ | ⟨old, here⟩
    · rw [history_concat_self, ← named]
      exact settled_concat_other (h.types s mem) different
    · exact other s' old here
  · rw [e, recombine_sources]
    intro s' mem'
    rcases List.mem_append.mp mem' with old | new
    · exact other s' old (absent s' old)
    · obtain rfl := List.mem_singleton.mp new
      have first : history call.id calls = [] := by
        apply List.map_eq_nil_iff.mpr
        apply List.filter_eq_nil_iff.mpr
        intro c hc here
        have submitted : call.id ∈ calls.map Source.id :=
          List.mem_map.mpr ⟨c, hc, of_decide_eq_true here⟩
        obtain ⟨s, mem, named⟩ := h.mem_ids.mpr submitted
        exact absent s mem named
      change Settled (history call.id _) call.type
      rw [history_concat_self, first]
      exact settled_singleton call.type

theorem Reflects.submit (h : Reflects calls a) (consistent : Consistent a) (call : Source) :
    Reflects (calls ++ [call]) (a.submit call.id call.type).next where
  ids := h.ids_submit call
  types := h.types_submit consistent.unique call
  unknown none := by simp at none
  combined _ :=
    (consistent.submit call.id call.type).combined (sources_ne_nil a call.id call.type)

theorem reflects_empty : Reflects [] empty where
  ids := rfl
  types := by simp [empty]
  unknown _ := rfl
  combined h := absurd rfl h

theorem reflects_run (calls : List Source) : Reflects calls (empty.run calls) := by
  induction calls using List.reverseRecOn with
  | nil => exact reflects_empty
  | append_singleton calls call ih =>
    rw [run_concat]
    exact ih.submit (consistent_empty.run calls) call

/-- After any submissions the accumulator reflects them, and a further one says truly whether it
changes the combination, of which nothing is touched if it does not. -/
theorem run_refines_last_write (calls : List Source) :
    Reflects calls (empty.run calls) ∧ ∀ call : Source,
      ((((empty.run calls).submit call.id call.type).changed = true ↔
        ¬(empty.run calls).combined.same (empty.run (calls ++ [call])).combined = true) ∧
      (((empty.run calls).submit call.id call.type).changed = false →
        (empty.run (calls ++ [call])).combined = (empty.run calls).combined)) := by
  constructor
  · exact reflects_run calls
  · intro call
    rw [run_concat]
    exact ⟨changed_iff _ _ _, combined_of_not_changed⟩

/-- The order of the members of a combination alone is no change, and the order stays. -/
theorem run_refines_last_write_reordered :
    ((empty.run [⟨1, .named "int" []⟩, ⟨2, .named "str" []⟩]).submit 1
      (.union [.named "str" [], .named "int" []])).changed = false ∧
    (empty.run [⟨1, .named "int" []⟩, ⟨2, .named "str" []⟩,
        ⟨1, .union [.named "str" [], .named "int" []]⟩]).combined =
      (empty.run [⟨1, .named "int" []⟩, ⟨2, .named "str" []⟩]).combined := by
  have unchanged : ((empty.run [⟨1, .named "int" []⟩, ⟨2, .named "str" []⟩]).submit 1
      (.union [.named "str" [], .named "int" []])).changed = false := by decide
  exact ⟨unchanged, ((run_refines_last_write _).2 ⟨1, _⟩).2 unchanged⟩

end TypeLedger.Accumulator
