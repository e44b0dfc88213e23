import TypeLedger.Proofs.Ty.Same
import TypeLedger.Ty.Combine

/-! What the loop over members leaves of a list of types, in closed form: the first of each kind of
sameness, literals last, without the literals whose base is there as well. -/
namespace TypeLedger.Ty

variable {t u : Ty} {ts us kept : List Ty}

/-- The types that no earlier one is the same as. -/
def distinct (ts : List Ty) : List Ty := ts.eraseDupsBy same

theorem distinct_cons (t : Ty) (ts : List Ty) :
    distinct (t :: ts) = t :: distinct (ts.filter fun u => !u.same t) := by
  simp [distinct, List.eraseDupsBy_cons]

theorem distinct_subset (ts : List Ty) : distinct ts ⊆ ts := by
  match ts with
  | [] => exact List.Subset.refl _
  | t :: ts =>
    rw [distinct_cons]
    have rest := distinct_subset (ts.filter fun u => !u.same t)
    exact List.cons_subset_cons t (List.Subset.trans rest List.filter_sublist.subset)
termination_by ts.length
decreasing_by exact Nat.lt_succ_of_le (List.length_filter_le ..)

theorem pairwise_distinct (ts : List Ty) : (distinct ts).Pairwise fun t u => ¬t.same u = true := by
  match ts with
  | [] => exact .nil
  | t :: ts =>
    rw [distinct_cons]
    refine .cons (fun u hu same => ?_) (pairwise_distinct _)
    have kept := (List.mem_filter.mp (distinct_subset _ hu)).2
    simp [same_symm same] at kept
termination_by ts.length
decreasing_by exact Nat.lt_succ_of_le (List.length_filter_le ..)

theorem distinct_eq_self (h : ts.Pairwise fun t u => ¬t.same u = true) : distinct ts = ts := by
  induction h with
  | nil => rfl
  | @cons t ts head _ ih =>
    have all : ts.filter (fun u => !u.same t) = ts :=
      List.filter_eq_self.mpr fun u hu => by simpa [same_comm u t] using head u hu
    rw [distinct_cons, all, ih]

/-- Only what has a type before it that is the same is left out. -/
theorem contains_distinct (ts : List Ty) (u : Ty) : contains (distinct ts) u = contains ts u := by
  match ts with
  | [] => rfl
  | t :: ts =>
    have rest := contains_distinct (ts.filter fun v => !v.same t) u
    simp only [contains] at rest
    simp only [distinct_cons, contains, List.any_cons, rest]
    by_cases first : t.same u = true
    · simp [first]
    · have others : ∀ v : Ty, (!v.same t && v.same u) = v.same u := by
        intro v
        by_cases same : v.same t = true
        · simp [same, same_congr_left same u, first]
        · simp [same]
      simp [List.any_filter, others]
termination_by ts.length
decreasing_by exact Nat.lt_succ_of_le (List.length_filter_le ..)

/-- A literal whose base is one of the types. -/
def absorbed (ts : List Ty) : Ty → Bool
  | literal base _ => contains ts base
  | _ => false

theorem absorbed_of_not_literal (ts : List Ty) (h : t.isLiteral = false) : absorbed ts t = false := by
  cases t <;> first | rfl | contradiction

theorem addMember_eq (ts : List Ty) (t : Ty) :
    addMember ts t = if contains ts t || absorbed ts t then ts else ts ++ [t] := by
  cases t <;> rfl

/-- The loop over members, where what it keeps absorbs none of what follows. -/
theorem foldl_addMember (h : ∀ t ∈ ts, ∀ kept ⊆ ts, absorbed (us ++ kept) t = absorbed us t) :
    ts.foldl addMember us =
      us ++ distinct (ts.filter fun t => !contains us t && !absorbed us t) := by
  induction ts generalizing us with
  | nil => simp [distinct]
  | cons t ts ih =>
    have later : ∀ u ∈ ts, ∀ kept ⊆ ts, absorbed (us ++ kept) u = absorbed us u :=
      fun u hu kept within => h u (.tail _ hu) kept (List.subset_cons_of_subset t within)
    rw [List.foldl_cons, addMember_eq]
    by_cases skipped : (contains us t || absorbed us t) = true
    · rw [if_pos skipped, ih later, List.filter_cons_of_neg]
      simpa [or_iff_not_imp_left] using skipped
    · have last : ∀ u ∈ ts, ∀ kept ⊆ ts,
          absorbed (us ++ [t] ++ kept) u = absorbed (us ++ [t]) u := by
        intro u hu kept within
        rw [List.append_assoc, List.singleton_append,
          h u (.tail _ hu) _ (List.cons_subset_cons t within), h u (.tail _ hu) [t] (by simp)]
      have survivors : (ts.filter fun u => !contains (us ++ [t]) u && !absorbed (us ++ [t]) u) =
          (ts.filter fun u => !contains us u && !absorbed us u).filter fun u => !u.same t := by
        rw [List.filter_filter]
        apply List.filter_congr
        intro u hu
        rw [h u (.tail _ hu) [t] (by simp), contains_append, same_comm u t]
        simp only [contains, List.any_cons, List.any_nil, Bool.or_false, Bool.not_or]
        rw [← Bool.and_assoc, Bool.and_comm (!t.same u)]
      rw [if_neg skipped, ih last, survivors, List.filter_cons_of_pos (by simpa using skipped),
        distinct_cons, List.append_assoc, List.singleton_append]

/-- What is left of types: no two are the same, literals are last, and the base of none is left. -/
def reduce (ts : List Ty) : List Ty :=
  distinct (ts.filter (!·.isLiteral)) ++ distinct (ts.filter fun t => t.isLiteral && !absorbed ts t)

theorem isLiteral_of_mem_others (h : t ∈ distinct (ts.filter (!·.isLiteral))) :
    t.isLiteral = false := by
  simpa using (List.mem_filter.mp (distinct_subset _ h)).2

theorem isLiteral_of_mem_literals
    (h : t ∈ distinct (ts.filter fun t => t.isLiteral && !absorbed us t)) : t.isLiteral = true := by
  have kept := (List.mem_filter.mp (distinct_subset _ h)).2
  exact (Bool.and_eq_true_iff.mp kept).1

theorem pairwise_reduce (ts : List Ty) : (reduce ts).Pairwise fun t u => ¬t.same u = true := by
  refine List.pairwise_append.mpr ⟨pairwise_distinct _, pairwise_distinct _, ?_⟩
  intro t ht u hu same
  have kinds := isLiteral_of_same same
  rw [isLiteral_of_mem_others ht, isLiteral_of_mem_literals hu] at kinds
  exact Bool.noConfusion kinds

theorem contains_eq_false_of_literals (h : ∀ t ∈ ts, t.isLiteral ≠ u.isLiteral) :
    contains ts u = false := by
  simp only [contains, List.any_eq_false]
  exact fun t ht same => h t ht (isLiteral_of_same same)

/-- A filter that does not tell apart types that are the same. -/
theorem contains_filter {p : Ty → Bool} (hp : ∀ t u, t.same u = true → p t = p u) (ts : List Ty)
    (u : Ty) : contains (ts.filter p) u = (p u && contains ts u) := by
  rw [Bool.eq_iff_iff, Bool.and_eq_true, contains_iff, contains_iff]
  constructor
  · rintro ⟨t, mem, same⟩
    obtain ⟨mem, kept⟩ := List.mem_filter.mp mem
    exact ⟨hp t u same ▸ kept, t, mem, same⟩
  · rintro ⟨kept, t, mem, same⟩
    exact ⟨t, List.mem_filter.mpr ⟨mem, (hp t u same).trans kept⟩, same⟩

theorem not_isLiteral_of_same (t u : Ty) (h : t.same u = true) :
    (!t.isLiteral) = !u.isLiteral := by
  rw [isLiteral_of_same h]

theorem contains_filter_not_literal (ts : List Ty) (u : Ty) :
    contains (ts.filter (!·.isLiteral)) u = (!u.isLiteral && contains ts u) :=
  contains_filter not_isLiteral_of_same ts u

/-- A literal of which the base is a literal could absorb a later one; there is none of them. -/
theorem members_eq (h : ∀ base v, literal base v ∈ openUnions ts → base.isLiteral = false) :
    members ts = reduce (openUnions ts) := by
  rw [members, literalsLast, List.foldl_append]
  generalize openUnions ts = opened at h ⊢
  have first : (opened.filter (!·.isLiteral)).foldl addMember [] =
      distinct (opened.filter (!·.isLiteral)) := by
    have none (t : Ty) (ht : t ∈ opened.filter (!·.isLiteral)) (us : List Ty) :
        absorbed us t = false :=
      absorbed_of_not_literal us (by simpa using (List.mem_filter.mp ht).2)
    rw [foldl_addMember fun t ht kept _ => by rw [none t ht, none t ht], List.nil_append]
    apply congrArg distinct
    rw [List.filter_eq_self]
    intro t ht
    simp [contains, none t ht]
  have base (t : Ty) (ht : t ∈ opened.filter isLiteral) :
      ∃ b v, t = literal b v ∧ b.isLiteral = false := by
    obtain ⟨mem, lit⟩ := List.mem_filter.mp ht
    cases t with
    | literal b v => exact ⟨b, v, rfl, h b v mem⟩
    | _ => cases lit
  have second (t : Ty) (ht : t ∈ opened.filter isLiteral) (kept : List Ty)
      (within : kept ⊆ opened.filter isLiteral) :
      absorbed (distinct (opened.filter (!·.isLiteral)) ++ kept) t =
        absorbed (distinct (opened.filter (!·.isLiteral))) t := by
    obtain ⟨b, v, rfl, notLiteral⟩ := base t ht
    have apart : contains kept b = false := by
      apply contains_eq_false_of_literals
      intro k hk
      rw [notLiteral, (List.mem_filter.mp (within hk)).2]
      exact Bool.noConfusion
    simp only [absorbed, contains_append, apart, Bool.or_false]
  rw [first, foldl_addMember second, reduce, List.filter_filter]
  refine congrArg (distinct _ ++ distinct ·) (List.filter_congr fun t ht => ?_)
  cases lit : t.isLiteral with
  | false => simp
  | true =>
    obtain ⟨b, v, rfl, notLiteral⟩ := base t (List.mem_filter.mpr ⟨ht, lit⟩)
    have apart : contains (opened.filter (!·.isLiteral)) (literal b v) = false := by
      apply contains_eq_false_of_literals
      intro k hk
      simpa [isLiteral] using (List.mem_filter.mp hk).2
    simp only [contains_distinct, apart, absorbed, contains_filter_not_literal, notLiteral,
      Bool.not_false, Bool.true_and, Bool.and_true]

theorem mem_openUnions : t ∈ openUnions ts ↔
    (t ∈ ts ∧ ∀ ms, t ≠ union ms) ∨ ∃ ms, union ms ∈ ts ∧ t ∈ ms := by
  simp only [openUnions, List.mem_flatMap]
  constructor
  · rintro ⟨u, hu, mem⟩
    cases u with
    | union ms => exact .inr ⟨ms, hu, mem⟩
    | _ =>
      obtain rfl := List.mem_singleton.mp mem
      exact .inl ⟨hu, fun _ => Ty.noConfusion⟩
  · rintro (⟨ht, other⟩ | ⟨ms, hu, mem⟩)
    · refine ⟨t, ht, ?_⟩
      cases t with
      | union ms => exact absurd rfl (other ms)
      | _ => exact List.mem_singleton.mpr rfl
    · exact ⟨_, hu, mem⟩

theorem mem_live : t ∈ ts.filter (!·.isNever) ↔ t ∈ ts ∧ t.isNever = false := by
  simp

theorem openUnions_subset (h : ts ⊆ us) : openUnions ts ⊆ openUnions us := by
  intro t mem
  obtain ⟨u, hu, inner⟩ := List.mem_flatMap.mp mem
  exact List.mem_flatMap.mpr ⟨u, h hu, inner⟩

/-- The rules of a combination in their order, for all but a type alone. -/
theorem combine_eq (h : ts.length ≠ 1) :
    combine ts =
      if (ts.filter (!·.isNever)).isEmpty then never
      else if (ts.filter (!·.isNever)).any isUnknown then unknown
      else if (ts.filter (!·.isNever)).any isAny then any
      else ofMembers (members (ts.filter (!·.isNever))) := by
  match ts with
  | [] => rfl
  | [_] => exact absurd rfl h
  | _ :: _ :: _ => rfl

theorem combineSome_of_ne_nil (h : ts ≠ []) : combineSome ts = .ok (combine ts) := by
  obtain ⟨t, ts, rfl⟩ := List.exists_cons_of_ne_nil h
  rfl

theorem live_eq_nil_iff : ts.filter (!·.isNever) = [] ↔ ∀ t ∈ ts, t = never := by
  rw [List.filter_eq_nil_iff]
  refine forall₂_congr fun t _ => ?_
  cases t <;> simp [isNever]

theorem any_isUnknown_live_iff : (ts.filter (!·.isNever)).any isUnknown = true ↔ unknown ∈ ts := by
  rw [List.any_eq_true]
  constructor
  · rintro ⟨t, mem, isUnknown⟩
    cases t with
    | unknown => exact (mem_live.mp mem).1
    | _ => cases isUnknown
  · exact fun mem => ⟨unknown, mem_live.mpr ⟨mem, rfl⟩, rfl⟩

theorem any_isAny_live_iff : (ts.filter (!·.isNever)).any isAny = true ↔ any ∈ ts := by
  rw [List.any_eq_true]
  constructor
  · rintro ⟨t, mem, isAny⟩
    cases t with
    | any => exact (mem_live.mp mem).1
    | _ => cases isAny
  · exact fun mem => ⟨any, mem_live.mpr ⟨mem, rfl⟩, rfl⟩

theorem not_isEmpty_live (mem : t ∈ ts) (live : t ≠ never) :
    ¬(ts.filter (!·.isNever)).isEmpty = true := by
  rw [List.isEmpty_iff, live_eq_nil_iff]
  exact fun none => live (none t mem)

theorem combine_of_never (h : ts.length ≠ 1) (none : ∀ t ∈ ts, t = never) : combine ts = never := by
  rw [combine_eq h, if_pos (List.isEmpty_iff.mpr (live_eq_nil_iff.mpr none))]

theorem combine_of_unknown (h : ts.length ≠ 1) (mem : unknown ∈ ts) : combine ts = unknown := by
  rw [combine_eq h, if_neg (not_isEmpty_live mem nofun), if_pos (any_isUnknown_live_iff.mpr mem)]

theorem combine_of_any (h : ts.length ≠ 1) (noUnknown : unknown ∉ ts) (mem : any ∈ ts) :
    combine ts = any := by
  rw [combine_eq h, if_neg (not_isEmpty_live mem nofun),
    if_neg (mt any_isUnknown_live_iff.mp noUnknown), if_pos (any_isAny_live_iff.mpr mem)]

theorem combine_of_live (h : ts.length ≠ 1) (some : ∃ t ∈ ts, t ≠ never) (noUnknown : unknown ∉ ts)
    (noAny : any ∉ ts) : combine ts = ofMembers (members (ts.filter (!·.isNever))) := by
  obtain ⟨t, mem, live⟩ := some
  rw [combine_eq h, if_neg (not_isEmpty_live mem live),
    if_neg (mt any_isUnknown_live_iff.mp noUnknown), if_neg (mt any_isAny_live_iff.mp noAny)]

/-- Lists combine alike if they look alike to each rule that none before it settles. -/
theorem combine_congr (hts : ts.length ≠ 1) (hus : us.length ≠ 1)
    (nevers : (∀ t ∈ ts, t = never) ↔ ∀ u ∈ us, u = never)
    (unknowns : unknown ∈ ts ↔ unknown ∈ us) (anys : unknown ∉ us → (any ∈ ts ↔ any ∈ us))
    (rest : unknown ∉ us → any ∉ us →
      members (ts.filter (!·.isNever)) = members (us.filter (!·.isNever))) :
    combine ts = combine us := by
  by_cases none : ∀ u ∈ us, u = never
  · rw [combine_of_never hts (nevers.mpr none), combine_of_never hus none]
  by_cases top : unknown ∈ us
  · rw [combine_of_unknown hts (unknowns.mpr top), combine_of_unknown hus top]
  by_cases mark : any ∈ us
  · rw [combine_of_any hts (mt unknowns.mp top) ((anys top).mpr mark), combine_of_any hus top mark]
  · rw [combine_of_live hts (by simpa using mt nevers.mp none) (mt unknowns.mp top)
      (mt (anys top).mp mark), combine_of_live hus (by simpa using none) top mark, rest top mark]

/-- The outcomes of a combination: no type is left, one absorbs the others, or the members of those
that are left remain. -/
theorem combine_cases (h : ts.length ≠ 1) :
    (combine ts = never ∧ ts.filter (!·.isNever) = []) ∨
    (combine ts = unknown ∧ unknown ∈ ts) ∨ (combine ts = any ∧ any ∈ ts) ∨
    (combine ts = ofMembers (members (ts.filter (!·.isNever))) ∧ ts.filter (!·.isNever) ≠ [] ∧
      ∀ t ∈ ts.filter (!·.isNever), t.isNever = false ∧ t.isUnknown = false ∧ t.isAny = false) := by
  rw [combine_eq h]
  split
  next none => exact .inl ⟨rfl, List.isEmpty_iff.mp none⟩
  next some =>
    split
    next absorbing => exact .inr (.inl ⟨rfl, any_isUnknown_live_iff.mp absorbing⟩)
    next noUnknown =>
      split
      next absorbing => exact .inr (.inr (.inl ⟨rfl, any_isAny_live_iff.mp absorbing⟩))
      next noAny =>
        refine .inr (.inr (.inr ⟨rfl, mt List.isEmpty_iff.mpr some, fun t mem => ?_⟩))
        refine ⟨(mem_live.mp mem).2, ?_, ?_⟩
        · exact Bool.eq_false_iff.mpr fun h => noUnknown (List.any_eq_true.mpr ⟨t, mem, h⟩)
        · exact Bool.eq_false_iff.mpr fun h => noAny (List.any_eq_true.mpr ⟨t, mem, h⟩)

end TypeLedger.Ty
