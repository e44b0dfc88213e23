import TypeLedger.Proofs.Ty.Congruence

/-! The loop over members. Members are added and never taken away, so that a type which adds nothing to
those there are adds nothing later either, and the loop may be run on less than the whole list. -/
namespace TypeLedger.Ty

variable {p : Ty → Bool} {t a b : Ty} {ts us ms : List Ty}

theorem contains_mono (h : ts ⊆ us) (there : contains ts t = true) : contains us t = true := by
  obtain ⟨u, mem, same⟩ := contains_iff.mp there
  exact contains_iff.mpr ⟨u, h mem, same⟩

theorem absorbed_mono (h : ts ⊆ us) (gone : absorbed ts t = true) : absorbed us t = true := by
  cases t with
  | literal base v => exact contains_mono h gone
  | _ => exact gone

/-- The type adds nothing to the members: it is the same as one of them, or a literal of one. -/
def covered (ms : List Ty) (t : Ty) : Bool := contains ms t || absorbed ms t

theorem covered_mono (h : ts ⊆ us) (there : covered ts t = true) : covered us t = true :=
  Bool.or_eq_true_iff.mpr
    ((Bool.or_eq_true_iff.mp there).imp (contains_mono h) (absorbed_mono h))

theorem covered_of_same (ms : List Ty) (h : a.same b = true) : covered ms a = covered ms b := by
  simp only [covered, contains, same_congr_right h, absorbed_of_same ms h]

theorem addMember_eq_covered (ms : List Ty) (t : Ty) :
    addMember ms t = if covered ms t then ms else ms ++ [t] := addMember_eq ms t

theorem subset_addMember (ms : List Ty) (t : Ty) : ms ⊆ addMember ms t := by
  rw [addMember_eq_covered]
  split
  · exact List.Subset.refl ms
  · exact List.subset_append_left ms [t]

theorem covered_addMember (ms : List Ty) (t : Ty) : covered (addMember ms t) t = true := by
  rw [addMember_eq_covered]
  split
  next there => exact there
  next => rw [covered, contains_of_mem (by simp), Bool.true_or]

theorem subset_foldl_addMember (ts ms : List Ty) : ms ⊆ ts.foldl addMember ms := by
  induction ts generalizing ms with
  | nil => exact List.Subset.refl ms
  | cons t ts ih => exact List.Subset.trans (subset_addMember ms t) (ih _)

theorem covered_foldl_addMember (mem : t ∈ ts) (ms : List Ty) :
    covered (ts.foldl addMember ms) t = true := by
  obtain ⟨before, after, rfl⟩ := List.append_of_mem mem
  rw [List.foldl_append, List.foldl_cons]
  exact covered_mono (subset_foldl_addMember _ _) (covered_addMember _ t)

/-- The loop over members may leave out what adds nothing to the ones there are. -/
theorem foldl_filter (h : ∀ t ∈ ts, p t = false → covered ms t = true) :
    (ts.filter p).foldl addMember ms = ts.foldl addMember ms := by
  induction ts generalizing ms with
  | nil => rfl
  | cons t ts ih =>
    obtain ⟨first, rest⟩ := List.forall_mem_cons.mp h
    rw [List.foldl_cons]
    cases ht : p t with
    | true =>
      rw [List.filter_cons_of_pos ht, List.foldl_cons]
      exact ih fun u hu out => covered_mono (subset_addMember ms t) (rest u hu out)
    | false =>
      rw [List.filter_cons_of_neg (by simp [ht]), addMember_eq_covered, if_pos (first ht)]
      exact ih rest

theorem foldl_distinct (ts ms : List Ty) :
    (distinct ts).foldl addMember ms = ts.foldl addMember ms := by
  match ts with
  | [] => rfl
  | t :: ts =>
    rw [distinct_cons, List.foldl_cons, List.foldl_cons, foldl_distinct]
    apply foldl_filter
    intro u _ same
    rw [Bool.not_eq_false'] at same
    rw [covered_of_same _ same, covered_addMember]
termination_by ts.length
decreasing_by exact Nat.lt_succ_of_le (List.length_filter_le ..)

theorem filter_reduce_others (ts : List Ty) :
    (reduce ts).filter (!·.isLiteral) = distinct (ts.filter (!·.isLiteral)) := by
  have kept : ∀ t ∈ distinct (ts.filter (!·.isLiteral)), (!t.isLiteral) = true :=
    fun t mem => by rw [isLiteral_of_mem_others mem, Bool.not_false]
  have gone : ∀ t ∈ distinct (ts.filter fun t => t.isLiteral && !absorbed ts t),
      ¬(!t.isLiteral) = true := fun t mem => by simp [isLiteral_of_mem_literals mem]
  rw [reduce, List.filter_append, List.filter_eq_self.mpr kept, List.filter_eq_nil_iff.mpr gone,
    List.append_nil]

theorem filter_reduce_literals (ts : List Ty) :
    (reduce ts).filter isLiteral = distinct ((ts.filter isLiteral).filter (!absorbed ts ·)) := by
  have gone : ∀ t ∈ distinct (ts.filter (!·.isLiteral)), ¬t.isLiteral = true :=
    fun t mem => by simp [isLiteral_of_mem_others mem]
  have kept : ∀ t ∈ distinct (ts.filter fun t => t.isLiteral && !absorbed ts t),
      t.isLiteral = true := fun t mem => isLiteral_of_mem_literals mem
  rw [reduce, List.filter_append, List.filter_eq_self.mpr kept, List.filter_eq_nil_iff.mpr gone,
    List.nil_append, List.filter_filter]
  simp only [Bool.and_comm]

/-- Where a type that is no literal adds nothing, a literal of it adds nothing. -/
theorem covered_of_base {u base : Ty} {v : LiteralValue} (same : u.same base = true)
    (plain : base.isLiteral = false) (there : covered ms u = true) :
    covered ms (.literal base v) = true := by
  rw [covered_of_same ms same, covered, absorbed_of_not_literal ms plain, Bool.or_false] at there
  exact Bool.or_eq_true_iff.mpr (.inr there)

/-- The loop over members may be run on what it leaves of some of the types in place of them. -/
theorem foldl_reduce (xs ys zs : List Ty)
    (bases : ∀ base v, literal base v ∈ ys → base.isLiteral = false) :
    (literalsLast (xs ++ reduce ys ++ zs)).foldl addMember [] =
      (literalsLast (xs ++ ys ++ zs)).foldl addMember [] := by
  simp only [literalsLast, List.filter_append, List.foldl_append, filter_reduce_others,
    filter_reduce_literals, foldl_distinct]
  congr 1
  apply foldl_filter
  intro t mem gone
  obtain ⟨mem, isLiteral⟩ := List.mem_filter.mp mem
  cases t with
  | literal base v =>
    have absorbed : absorbed ys (literal base v) = true := by simpa using gone
    obtain ⟨u, hu, same⟩ := contains_iff.mp absorbed
    have plain := bases base v mem
    have other : u ∈ ys.filter (!·.isLiteral) :=
      List.mem_filter.mpr ⟨hu, by rw [isLiteral_of_same same, plain, Bool.not_false]⟩
    -- The base is among the types that are no literals, all of which come first.
    apply covered_of_base same plain
    apply covered_mono (subset_foldl_addMember _ _)
    apply covered_mono (subset_foldl_addMember _ _)
    exact covered_foldl_addMember other _
  | _ => cases isLiteral

end TypeLedger.Ty
