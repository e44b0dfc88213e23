import TypeLedger.Proofs.Ty.Combine

/-! Types in normal form, over any condition on the names of classes. Combining keeps types in
normal form, and gives back a union in normal form from its members. -/
namespace TypeLedger.Ty

variable {t : Ty} {ts ms : List Ty} {className : Text → Prop}

/-- What a union in normal form may have as a member. -/
def isPart : Ty → Bool
  | null | named .. | literal .. => true
  | _ => false

/-- The members of a union in normal form. -/
structure Reduced (ts : List Ty) : Prop where
  parts : ∀ t ∈ ts, t.isPart = true
  distinct : ts.Pairwise fun t u => ¬t.same u = true
  literalsLast : ts.Pairwise fun t u => t.isLiteral = true → u.isLiteral = true
  notAbsorbed : ∀ base v, literal base v ∈ ts → ∀ t ∈ ts, ¬t.same base = true

inductive Normal (className : Text → Prop) : Ty → Prop
  | unknown : Normal className unknown
  | any : Normal className any
  | never : Normal className never
  | null : Normal className null
  | named {name args} : className name → (∀ a ∈ args, Normal className a) →
      Normal className (named name args)
  | literal (v : LiteralValue) : Normal className (literal v.cls v)
  | union {members} : 2 ≤ members.length → (∀ m ∈ members, Normal className m) →
      Reduced members → Normal className (union members)

theorem isLiteral_cls (v : LiteralValue) : v.cls.isLiteral = false := by
  cases v <;> rfl

theorem Normal.isLiteral_base {base : Ty} {v : LiteralValue}
    (h : Normal className (.literal base v)) : base.isLiteral = false := by
  cases h
  exact isLiteral_cls v

theorem Normal.members {ms : List Ty} (h : Normal className (.union ms)) :
    2 ≤ ms.length ∧ (∀ m ∈ ms, Normal className m) ∧ Reduced ms := by
  cases h with
  | union several normal reduced => exact ⟨several, normal, reduced⟩

theorem distinct_eq_nil (h : distinct ts = []) : ts = [] := by
  cases ts with
  | nil => rfl
  | cons t ts => simp [distinct_cons] at h

theorem reduce_subset (ts : List Ty) : reduce ts ⊆ ts :=
  List.append_subset.mpr
    ⟨List.Subset.trans (distinct_subset _) List.filter_sublist.subset,
      List.Subset.trans (distinct_subset _) List.filter_sublist.subset⟩

/-- A literal is left out of a list for another literal or for its base, and something stays. -/
theorem reduce_ne_nil (bases : ∀ base v, literal base v ∈ ts → base.isLiteral = false)
    (h : ts ≠ []) : reduce ts ≠ [] := by
  intro none
  obtain ⟨noOthers, noLiterals⟩ := List.append_eq_nil_iff.mp none
  have literals := List.filter_eq_nil_iff.mp (distinct_eq_nil noOthers)
  have gone := List.filter_eq_nil_iff.mp (distinct_eq_nil noLiterals)
  obtain ⟨t, ht⟩ := List.exists_mem_of_ne_nil ts h
  have isLiteral := literals t ht
  cases t with
  | literal base v =>
    have present : contains ts base = true := by
      simpa [Ty.isLiteral, absorbed] using gone _ ht
    obtain ⟨u, hu, same⟩ := contains_iff.mp present
    have other := literals u hu
    rw [isLiteral_of_same same, bases base v ht] at other
    exact other rfl
  | _ => exact isLiteral rfl

theorem reduced_reduce (parts : ∀ t ∈ ts, t.isPart = true) : Reduced (reduce ts) where
  parts t ht := parts t (reduce_subset ts ht)
  distinct := pairwise_reduce ts
  literalsLast := by
    refine List.pairwise_append.mpr ⟨?_, ?_, fun t ht _ _ lit => ?_⟩
    · exact List.pairwise_of_forall_mem_list fun t ht u _ lit => by
        simp [isLiteral_of_mem_others ht] at lit
    · exact List.pairwise_of_forall_mem_list fun t _ u hu _ => isLiteral_of_mem_literals hu
    · simp [isLiteral_of_mem_others ht] at lit
  notAbsorbed := by
    intro base v mem t ht same
    rcases List.mem_append.mp mem with first | second
    · have notLiteral := (List.mem_filter.mp (distinct_subset _ first)).2
      simp [isLiteral] at notLiteral
    · have kept := (List.mem_filter.mp (distinct_subset _ second)).2
      have absent : contains ts base = false := by simpa [isLiteral, absorbed] using kept
      have present := contains_iff.mpr ⟨t, reduce_subset ts ht, same⟩
      rw [absent] at present
      exact Bool.noConfusion present

theorem filter_append_filter {p : Ty → Bool}
    (h : ts.Pairwise fun t u => p t = true → p u = true) :
    ts.filter (fun t => !p t) ++ ts.filter p = ts := by
  induction h with
  | nil => rfl
  | @cons t ts later _ ih =>
    cases ht : p t with
    | false => simp [ht, ih]
    | true =>
      have all : ∀ u ∈ ts, p u = true := fun u hu => later u hu ht
      have none : ts.filter (fun u => !p u) = [] :=
        List.filter_eq_nil_iff.mpr fun u hu => by simp [all u hu]
      rw [List.filter_cons_of_pos ht, List.filter_cons_of_neg (by simp [ht]), none,
        List.filter_eq_self.mpr all, List.nil_append]

theorem Reduced.reduce_eq_self (h : Reduced ts) : reduce ts = ts := by
  have stays : (ts.filter fun t => t.isLiteral && !absorbed ts t) = ts.filter isLiteral := by
    apply List.filter_congr
    intro t ht
    cases t with
    | literal base v =>
      have absent : contains ts base = false := by
        rw [← Bool.not_eq_true, contains_iff]
        rintro ⟨u, hu, same⟩
        exact h.notAbsorbed base v ht u hu same
      simp [isLiteral, absorbed, absent]
    | _ => rfl
  rw [reduce, stays, distinct_eq_self (h.distinct.filter _), distinct_eq_self (h.distinct.filter _)]
  exact filter_append_filter h.literalsLast

/-- What is left of the members and single types of a list that nothing absorbs. -/
theorem openUnions_parts (normal : ∀ t ∈ ts, Normal className t)
    (live : ∀ t ∈ ts, t.isNever = false ∧ t.isUnknown = false ∧ t.isAny = false)
    (ht : t ∈ openUnions ts) :
    t.isPart = true ∧ Normal className t := by
  rcases mem_openUnions.mp ht with ⟨mem, other⟩ | ⟨ms, mem, inner⟩
  · refine ⟨?_, normal t mem⟩
    obtain ⟨h₁, h₂, h₃⟩ := live t mem
    cases t with
    | null | named | literal => rfl
    | union ms => exact absurd rfl (other ms)
    | _ => contradiction
  · obtain ⟨_, members, reduced⟩ := (normal _ mem).members
    exact ⟨reduced.parts t inner, members t inner⟩

theorem openUnions_ne_nil (normal : ∀ t ∈ ts, Normal className t) (h : ts ≠ []) :
    openUnions ts ≠ [] := by
  obtain ⟨t, ht⟩ := List.exists_mem_of_ne_nil ts h
  by_cases isUnion : ∃ ms, t = union ms
  · obtain ⟨ms, rfl⟩ := isUnion
    have several := (normal _ ht).members.1
    have first : ms ≠ [] := by
      rintro rfl
      contradiction
    obtain ⟨m, hm⟩ := List.exists_mem_of_ne_nil ms first
    exact List.ne_nil_of_mem (mem_openUnions.mpr (.inr ⟨ms, ht, hm⟩))
  · have other : ∀ ms, t ≠ union ms := fun ms same => isUnion ⟨ms, same⟩
    exact List.ne_nil_of_mem (mem_openUnions.mpr (.inl ⟨ht, other⟩))

theorem Normal.ofMembers (normal : ∀ t ∈ ts, Normal className t) (reduced : Reduced ts)
    (h : ts ≠ []) : Normal className (ofMembers ts) := by
  match ts with
  | [] => exact absurd rfl h
  | [t] => exact normal t (by simp)
  | _ :: _ :: _ => exact .union (by simp) normal reduced

theorem Normal.combine (normal : ∀ t ∈ ts, Normal className t) : Normal className (combine ts) := by
  by_cases alone : ts.length = 1
  · obtain ⟨t, rfl⟩ := List.length_eq_one_iff.mp alone
    exact normal t (by simp)
  rcases combine_cases alone with ⟨e, _⟩ | ⟨e, _⟩ | ⟨e, _⟩ | ⟨e, some, live⟩ <;> rw [e]
  · exact .never
  · exact .unknown
  · exact .any
  · have normal : ∀ t ∈ ts.filter (!·.isNever), Normal className t :=
      fun t ht => normal t (mem_live.mp ht).1
    have parts : ∀ t ∈ openUnions (ts.filter (!·.isNever)), t.isPart = true ∧ Normal className t :=
      fun t ht => openUnions_parts normal live ht
    have bases : ∀ base v, Ty.literal base v ∈ openUnions (ts.filter (!·.isNever)) →
        base.isLiteral = false := fun base v mem => (parts _ mem).2.isLiteral_base
    rw [members_eq bases]
    refine .ofMembers (fun t ht => (parts t (reduce_subset _ ht)).2)
      (reduced_reduce fun t ht => (parts t ht).1)
      (reduce_ne_nil bases (openUnions_ne_nil normal some))

/-- The members of a union in normal form combine to the union, in their order. -/
theorem Normal.combine_members (h : Normal className (.union ms)) : Ty.combine ms = .union ms := by
  obtain ⟨several, normal, reduced⟩ := h.members
  have live : ∀ m ∈ ms, m.isNever = false ∧ m.isUnknown = false ∧ m.isAny = false := by
    intro m hm
    have part := reduced.parts m hm
    cases m <;> first | contradiction | exact ⟨rfl, rfl, rfl⟩
  have kept : ms.filter (!·.isNever) = ms :=
    List.filter_eq_self.mpr fun m hm => by simp [(live m hm).1]
  have noUnknown : ms.any isUnknown = false :=
    List.any_eq_false.mpr fun m hm => by simp [(live m hm).2.1]
  have noAny : ms.any isAny = false :=
    List.any_eq_false.mpr fun m hm => by simp [(live m hm).2.2]
  have opened : openUnions ms = ms := by
    refine (List.flatMap_congr fun m hm => ?_).trans (List.flatMap_singleton' ms)
    have part := reduced.parts m hm
    cases m <;> first | contradiction | rfl
  have bases : ∀ base v, Ty.literal base v ∈ openUnions ms → base.isLiteral = false :=
    fun base v mem => (normal _ (opened ▸ mem)).isLiteral_base
  rw [combine_eq (by omega), kept, noUnknown, noAny, members_eq bases, opened,
    reduced.reduce_eq_self]
  match ms, several with
  | _ :: _ :: _, _ => rfl

end TypeLedger.Ty
