import TypeLedger.Trace.Replay
import TypeLedger.Proofs.Accumulator.LastWrite

/-! The accumulator of one binding in a replay. It sees the submissions for the binding, in their
order, and nothing else. -/
namespace TypeLedger.Trace

variable {l : Ledger} {binding : Text} {records : List (Record × Ty)}

/-- The submissions that records make for a binding. -/
def submissions (binding : Text) (records : List (Record × Ty)) : List Source :=
  (records.filter (·.1.binding = binding)).map fun r => ⟨r.1.source, r.2⟩

theorem submissions_cons (binding : Text) (r : Record × Ty) (records : List (Record × Ty)) :
    submissions binding (r :: records) =
      if r.1.binding = binding then ⟨r.1.source, r.2⟩ :: submissions binding records
      else submissions binding records := by
  by_cases here : r.1.binding = binding <;> simp [submissions, here]

theorem mem_submissions {s : Source} : s ∈ submissions binding records ↔
    ∃ r ∈ records, r.1.binding = binding ∧ r.1.source = s.id ∧ r.2 = s.type := by
  simp only [submissions, List.mem_map, List.mem_filter, decide_eq_true_eq, and_assoc]
  constructor
  · rintro ⟨r, mem, here, rfl⟩
    exact ⟨r, mem, here, rfl, rfl⟩
  · rintro ⟨r, mem, here, source, type⟩
    exact ⟨r, mem, here, by rw [source, type]⟩

namespace Ledger

/-- The accumulator of a binding, which is empty before the first submission for it. -/
def accumulator (l : Ledger) (binding : Text) : Accumulator := (l.get? binding).getD .empty

theorem lookup_cons_eq (binding : Text) (first : Text × Accumulator)
    (rest : List (Text × Accumulator)) : (first :: rest).lookup binding =
      if binding = first.1 then some first.2 else rest.lookup binding := by
  obtain ⟨name, a⟩ := first
  rw [List.lookup_cons]
  by_cases here : binding = name
  · simp [here]
  · simp [here, beq_false_of_ne here]

theorem lookup_put (binding : Text) (a : Accumulator) (bindings : List (Text × Accumulator))
    (other : Text) : (put binding a bindings).lookup other =
      if other = binding then some a else bindings.lookup other := by
  induction bindings with
  | nil => rw [put, lookup_cons_eq]
  | cons first rest ih =>
    rw [put]
    split
    next here =>
      subst here
      rw [lookup_cons_eq, lookup_cons_eq]
      split <;> rfl
    next elsewhere =>
      rw [lookup_cons_eq, lookup_cons_eq, ih]
      by_cases this : other = first.1
      · simp [this, elsewhere]
      · simp [this]

theorem get?_submit (l : Ledger) (record : Record) (type : Ty) (binding : Text) :
    (l.submit record type).1.get? binding =
      if binding = record.binding then some ((l.accumulator binding).submit record.source type).next
      else l.get? binding := by
  simp only [submit, get?, lookup_put]
  split
  next here => rw [here]; rfl
  next => rfl

theorem accumulator_submit (l : Ledger) (record : Record) (type : Ty) (binding : Text) :
    (l.submit record type).1.accumulator binding =
      if binding = record.binding then ((l.accumulator binding).submit record.source type).next
      else l.accumulator binding := by
  rw [accumulator, get?_submit]
  split <;> rfl

/-- A replay runs the accumulator of a binding on the submissions for it. -/
theorem get?_replay (l : Ledger) (records : List (Record × Ty)) (binding : Text) :
    (l.replay records).1.get? binding =
      if submissions binding records = [] then l.get? binding
      else some ((l.accumulator binding).run (submissions binding records)) := by
  induction records generalizing l with
  | nil => rfl
  | cons r rest ih =>
    change ((l.submit r.1 r.2).1.replay rest).1.get? binding = _
    rw [ih, submissions_cons, get?_submit, accumulator_submit]
    by_cases here : r.1.binding = binding
    · rw [if_pos here, if_pos here.symm, if_pos here.symm, if_neg (List.cons_ne_nil _ _)]
      split
      next none => rw [none]; rfl
      next => rfl
    · rw [if_neg here, if_neg (Ne.symm here), if_neg (Ne.symm here)]

theorem accumulator_replay (l : Ledger) (records : List (Record × Ty)) (binding : Text) :
    (l.replay records).1.accumulator binding =
      (l.accumulator binding).run (submissions binding records) := by
  rw [accumulator, get?_replay]
  split
  next none => rw [none]; rfl
  next => rfl

/-- The bindings that have an accumulator, in order. -/
def names (l : Ledger) : List Text := l.bindings.map Prod.fst

theorem isSome_get?_iff : (l.get? binding).isSome ↔ binding ∈ l.names := by
  unfold get? names
  induction l.bindings with
  | nil => simp
  | cons first rest ih =>
    rw [lookup_cons_eq, List.map_cons, List.mem_cons, ← ih]
    split
    next here => simp [here]
    next elsewhere => simp [elsewhere]

theorem names_put (binding : Text) (a : Accumulator) (bindings : List (Text × Accumulator)) :
    (put binding a bindings).map Prod.fst =
      if binding ∈ bindings.map Prod.fst then bindings.map Prod.fst
      else bindings.map Prod.fst ++ [binding] := by
  induction bindings with
  | nil => rfl
  | cons first rest ih =>
    rw [put, List.map_cons]
    split
    next here => simp [here]
    next elsewhere =>
      rw [List.map_cons, ih]
      by_cases known : binding ∈ rest.map Prod.fst
      · rw [if_pos known, if_pos (List.mem_cons_of_mem _ known)]
      · rw [if_neg known, if_neg (by simp [Ne.symm elsewhere, known]), List.cons_append]

theorem names_submit (l : Ledger) (record : Record) (type : Ty) :
    (l.submit record type).1.names =
      if record.binding ∈ l.names then l.names else l.names ++ [record.binding] :=
  names_put _ _ _

/-- New bindings go last, in order of first use. -/
theorem names_replay (l : Ledger) (records : List (Record × Ty)) :
    (l.replay records).1.names =
      l.names ++ ((records.map (·.1.binding)).removeAll l.names).eraseDups := by
  induction records generalizing l with
  | nil => simp [replay, List.removeAll]
  | cons r rest ih =>
    change ((l.submit r.1 r.2).1.replay rest).1.names = _
    rw [ih, names_submit, List.map_cons]
    by_cases known : r.1.binding ∈ l.names
    · simp [List.removeAll, known]
    · simp [List.removeAll, known, List.eraseDups_cons, List.filter_filter, beq_eq_decide,
        Bool.and_comm]

/-- No binding is there twice. -/
theorem nodup_names_replay (unique : l.names.Nodup) (records : List (Record × Ty)) :
    (l.replay records).1.names.Nodup := by
  induction records generalizing l with
  | nil => exact unique
  | cons r rest ih =>
    apply ih (l := (l.submit r.1 r.2).1)
    rw [names_submit]
    split
    next => exact unique
    next new =>
      rw [← List.concat_eq_append]
      exact unique.concat new

/-- A pass over records of bindings that are there leaves the names as they are. -/
theorem names_replay_of_known (known : ∀ r ∈ records, r.1.binding ∈ l.names) :
    (l.replay records).1.names = l.names := by
  have none : (records.map (·.1.binding)).removeAll l.names = [] :=
    List.filter_eq_nil_iff.mpr fun b mem => by
      obtain ⟨r, hr, rfl⟩ := List.mem_map.mp mem
      simpa using known r hr
  rw [names_replay, none, List.eraseDups_nil, List.append_nil]

theorem names_passes_of_known (known : ∀ r ∈ records, r.1.binding ∈ l.names) (n : Nat) :
    ∀ pass ∈ passes records n l, pass.1.names = l.names := by
  induction n generalizing l with
  | zero => exact List.forall_mem_nil _
  | succ n ih =>
    have stay := names_replay_of_known known
    refine List.forall_mem_cons.mpr ⟨stay, ?_⟩
    rw [← stay] at known ⊢
    exact ih known

theorem mem_names_replay {r : Record × Ty} (mem : r ∈ records) :
    r.1.binding ∈ (l.replay records).1.names := by
  have submitted : (⟨r.1.source, r.2⟩ : Source) ∈ submissions r.1.binding records :=
    mem_submissions.mpr ⟨r, mem, rfl, rfl, rfl⟩
  rw [← isSome_get?_iff, get?_replay, if_neg (List.ne_nil_of_mem submitted)]
  rfl

/-- After each pass the bindings are those of the records, in order of first use. -/
theorem names_passes (records : List (Record × Ty)) (n : Nat) :
    ∀ pass ∈ passes records n .empty,
      pass.1.names = (records.map (·.1.binding)).eraseDups := by
  have first : (empty.replay records).1.names = (records.map (·.1.binding)).eraseDups := by
    rw [names_replay]
    simp [names, empty, List.removeAll]
  cases n with
  | zero => exact List.forall_mem_nil _
  | succ n =>
    refine List.forall_mem_cons.mpr ⟨first, ?_⟩
    rw [← first]
    exact names_passes_of_known (fun _ => mem_names_replay) n

end Ledger
end TypeLedger.Trace
