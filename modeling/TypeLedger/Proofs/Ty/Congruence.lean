import TypeLedger.Proofs.Ty.Combine

/-! A combination as a function of the set of its types. Lists that hold the same types, in whatever
order, number and form, have combinations that are the same. -/
namespace TypeLedger.Ty

variable {a b t u : Ty} {ts us : List Ty} {p : Ty → Bool}

/-- The lists hold the same types. -/
def Alike (ts us : List Ty) : Prop := ∀ t, contains ts t = contains us t

theorem Alike.symm (h : Alike ts us) : Alike us ts := fun t => (h t).symm

theorem contains_of_mem (h : t ∈ ts) : contains ts t = true :=
  contains_iff.mpr ⟨t, h, same_refl t⟩

theorem Alike.exists_same (h : Alike ts us) (mem : t ∈ ts) : ∃ u ∈ us, u.same t = true :=
  contains_iff.mp (h t ▸ contains_of_mem mem)

theorem alike_of_exists_same (left : ∀ t ∈ ts, ∃ u ∈ us, u.same t = true)
    (right : ∀ u ∈ us, ∃ t ∈ ts, t.same u = true) : Alike ts us := by
  intro v
  rw [Bool.eq_iff_iff, contains_iff, contains_iff]
  constructor
  · rintro ⟨t, ht, same⟩
    obtain ⟨u, hu, same'⟩ := left t ht
    exact ⟨u, hu, same_trans same' same⟩
  · rintro ⟨u, hu, same⟩
    obtain ⟨t, ht, same'⟩ := right u hu
    exact ⟨t, ht, same_trans same' same⟩

theorem same_union_of_alike (h : Alike ts us) : (union ts).same (union us) = true := by
  rw [same_union_iff]
  constructor
  · intro t ht
    obtain ⟨u, hu, same⟩ := h.exists_same ht
    exact ⟨u, hu, same_symm same⟩
  · intro u hu
    exact h.symm.exists_same hu

theorem Alike.isEmpty (h : Alike ts us) : ts.isEmpty = us.isEmpty := by
  match ts, us with
  | [], [] | _ :: _, _ :: _ => rfl
  | [], u :: us =>
    obtain ⟨_, mem, _⟩ := h.symm.exists_same List.mem_cons_self
    cases mem
  | t :: ts, [] =>
    obtain ⟨_, mem, _⟩ := h.exists_same List.mem_cons_self
    cases mem

theorem Alike.filter (h : Alike ts us) (hp : ∀ a b, a.same b = true → p a = p b) :
    Alike (ts.filter p) (us.filter p) := by
  intro t
  rw [contains_filter hp, contains_filter hp, h t]

theorem isNever_eq_same (t : Ty) : t.isNever = t.same never := by
  cases t <;> rfl

theorem any_isUnknown (ts : List Ty) : ts.any isUnknown = contains ts unknown := by
  refine congrArg ts.any (funext fun t => ?_)
  cases t <;> rfl

theorem any_isAny (ts : List Ty) : ts.any isAny = contains ts any := by
  refine congrArg ts.any (funext fun t => ?_)
  cases t <;> rfl

theorem exists_same_of_openUnions (h : Alike ts us) (mem : t ∈ openUnions ts) :
    ∃ u ∈ openUnions us, u.same t = true := by
  rcases mem_openUnions.mp mem with ⟨mem, other⟩ | ⟨ms, mem, inner⟩
  · obtain ⟨u, hu, same⟩ := h.exists_same mem
    refine ⟨u, mem_openUnions.mpr (.inl ⟨hu, ?_⟩), same⟩
    rintro ns rfl
    obtain ⟨ms, isUnion, _⟩ := same_union_left same
    exact other ms isUnion
  · obtain ⟨u, hu, same⟩ := h.exists_same mem
    obtain ⟨ns, rfl, left, _⟩ := same_union_left (same_symm same)
    obtain ⟨n, hn, same⟩ := left t inner
    exact ⟨n, mem_openUnions.mpr (.inr ⟨ns, hu, hn⟩), same_symm same⟩

theorem Alike.openUnions (h : Alike ts us) : Alike (openUnions ts) (openUnions us) :=
  alike_of_exists_same (fun _ => exists_same_of_openUnions h)
    fun _ => exists_same_of_openUnions h.symm

theorem absorbed_of_same (ts : List Ty) (h : a.same b = true) : absorbed ts a = absorbed ts b := by
  cases a with
  | literal base v =>
    obtain ⟨base', rfl, same⟩ := same_literal_left h
    simp only [absorbed, contains, same_congr_right same]
  | _ => rw [absorbed_of_not_literal ts rfl, absorbed_of_not_literal ts (isLiteral_of_same h).symm]

/-- Of literals that are the same, both stay beside the types or none. -/
theorem literal_stays_of_same (ts : List Ty) (a b : Ty) (h : a.same b = true) :
    (a.isLiteral && !absorbed ts a) = (b.isLiteral && !absorbed ts b) := by
  rw [isLiteral_of_same h, absorbed_of_same ts h]

theorem contains_reduce (ts : List Ty) (t : Ty) :
    contains (reduce ts) t = (contains ts t && !absorbed ts t) := by
  rw [reduce, contains_append, contains_distinct, contains_distinct, contains_filter_not_literal,
    contains_filter (literal_stays_of_same ts)]
  cases lit : t.isLiteral with
  | false => simp [absorbed_of_not_literal ts lit]
  | true => simp [Bool.and_comm]

theorem Alike.reduce (h : Alike ts us) : Alike (reduce ts) (reduce us) := by
  have bases (t : Ty) : absorbed ts t = absorbed us t := by
    cases t with
    | literal base v => exact h base
    | _ => rfl
  intro t
  rw [contains_reduce, contains_reduce, h t, bases]

/-- One type is all there is of a list of different types that holds no other. -/
theorem Alike.singleton (h : Alike [t] us) (hus : us.Pairwise fun t u => ¬t.same u = true) :
    ∃ u, us = [u] ∧ t.same u = true := by
  have all : ∀ u ∈ us, t.same u = true := by
    intro u hu
    obtain ⟨_, mem, same⟩ := h.symm.exists_same hu
    exact List.mem_singleton.mp mem ▸ same
  match us with
  | [] => exact absurd h.isEmpty Bool.noConfusion
  | [u] => exact ⟨u, rfl, all u List.mem_cons_self⟩
  | u :: v :: us =>
    have apart := (List.pairwise_cons.mp hus).1 v List.mem_cons_self
    exact absurd (same_trans (same_symm (all u (by simp))) (all v (by simp))) apart

theorem Alike.same_ofMembers (h : Alike ts us) (hts : ts.Pairwise fun t u => ¬t.same u = true)
    (hus : us.Pairwise fun t u => ¬t.same u = true) :
    (ofMembers ts).same (ofMembers us) = true := by
  match ts, us with
  | [t], _ =>
    obtain ⟨u, rfl, same⟩ := h.singleton hus
    exact same
  | _, [u] =>
    obtain ⟨t, rfl, same⟩ := h.symm.singleton hts
    exact same_symm same
  | [], [] | [], _ :: _ :: _ | _ :: _ :: _, [] | _ :: _ :: _, _ :: _ :: _ =>
    exact same_union_of_alike h

/-- The rules of a combination in their order look at the set of the types alone. -/
theorem Alike.combine (h : Alike ts us) (hts : ts.length ≠ 1) (hus : us.length ≠ 1)
    (bases : ∀ base v, literal base v ∈ Ty.openUnions (ts ++ us) → base.isLiteral = false) :
    (combine ts).same (combine us) = true := by
  have live : Alike (ts.filter (!·.isNever)) (us.filter (!·.isNever)) := by
    apply h.filter
    intro a b same
    rw [isNever_eq_same, isNever_eq_same, same_congr_left same]
  have closed (vs : List Ty) (sub : vs ⊆ ts ++ us) :
      members (vs.filter (!·.isNever)) = Ty.reduce (Ty.openUnions (vs.filter (!·.isNever))) := by
    refine members_eq fun base v mem => bases base v (openUnions_subset ?_ mem)
    exact List.Subset.trans List.filter_sublist.subset sub
  rw [combine_eq hts, combine_eq hus, closed ts (by simp), closed us (by simp), live.isEmpty,
    any_isUnknown, any_isUnknown, any_isAny, any_isAny, live unknown, live any]
  split
  · exact same_refl _
  split
  · exact same_refl _
  split
  · exact same_refl _
  · exact live.openUnions.reduce.same_ofMembers (pairwise_reduce _) (pairwise_reduce _)

/-- A type alone is not looked at, so that a list of one type is compared with another such list. -/
theorem Alike.combine_of_length (h : Alike ts us) (length : ts.length = us.length)
    (bases : ∀ base v, literal base v ∈ Ty.openUnions (ts ++ us) → base.isLiteral = false) :
    (Ty.combine ts).same (Ty.combine us) = true := by
  by_cases alone : ts.length = 1
  · obtain ⟨t, rfl⟩ := List.length_eq_one_iff.mp alone
    obtain ⟨u, rfl⟩ := List.length_eq_one_iff.mp (length ▸ alone)
    obtain ⟨_, mem, same⟩ := h.symm.exists_same List.mem_cons_self
    exact List.mem_singleton.mp mem ▸ same
  · exact h.combine alone (length ▸ alone) bases

/-- Every literal in the type is one of a class. -/
inductive ClassBased : Ty → Prop
  | unknown : ClassBased unknown
  | any : ClassBased any
  | never : ClassBased never
  | null : ClassBased null
  | named {n : Text} {args : List Ty} : (∀ a ∈ args, ClassBased a) → ClassBased (named n args)
  | literal {n : Text} {args : List Ty} {v : LiteralValue} :
    ClassBased (named n args) → ClassBased (literal (named n args) v)
  | union {ms : List Ty} : (∀ m ∈ ms, ClassBased m) → ClassBased (union ms)

theorem ClassBased.openUnions (h : ∀ t ∈ ts, ClassBased t) : ∀ t ∈ openUnions ts, ClassBased t := by
  intro t mem
  rcases mem_openUnions.mp mem with ⟨mem, _⟩ | ⟨ms, mem, inner⟩
  · exact h t mem
  · cases h _ mem with
    | union members => exact members t inner

theorem ClassBased.isLiteral_base {base : Ty} {v : LiteralValue} (h : ClassBased (.literal base v)) :
    base.isLiteral = false := by
  cases h
  rfl

end TypeLedger.Ty
