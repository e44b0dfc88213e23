import TypeLedger.Proofs.Ty.Combine

/-! The literal values in a type. A combination has no values that its parts do not have. -/
namespace TypeLedger.Ty

variable {t u : Ty} {ts ms : List Ty} {n : Text} {v w : LiteralValue}

/-- A literal with the value occurs in the type. -/
inductive HasValue (v : LiteralValue) : Ty → Prop
  | literal {base : Ty} : HasValue v (literal base v)
  | named {n : Text} {args : List Ty} {a : Ty} : a ∈ args → HasValue v a → HasValue v (named n args)
  | union {ms : List Ty} {m : Ty} : m ∈ ms → HasValue v m → HasValue v (union ms)

theorem hasValue_literal_iff : (literal t w).HasValue v ↔ v = w := by
  constructor
  · rintro ⟨⟩
    rfl
  · rintro rfl
    exact .literal

theorem hasValue_named_iff : (named n ts).HasValue v ↔ ∃ t ∈ ts, t.HasValue v := by
  constructor
  · intro h
    cases h with
    | named mem inner => exact ⟨_, mem, inner⟩
  · rintro ⟨t, mem, inner⟩
    exact .named mem inner

theorem hasValue_union_iff : (union ms).HasValue v ↔ ∃ m ∈ ms, m.HasValue v := by
  constructor
  · intro h
    cases h with
    | union mem inner => exact ⟨_, mem, inner⟩
  · rintro ⟨m, mem, inner⟩
    exact .union mem inner

theorem HasValue.of_openUnions (mem : u ∈ openUnions ts) (h : u.HasValue v) :
    ∃ t ∈ ts, t.HasValue v := by
  rcases mem_openUnions.mp mem with ⟨mem, _⟩ | ⟨ms, mem, inner⟩
  · exact ⟨u, mem, h⟩
  · exact ⟨.union ms, mem, .union inner h⟩

theorem foldl_addMember_subset (us : List Ty) : ts.foldl addMember us ⊆ us ++ ts := by
  induction ts generalizing us with
  | nil => simp
  | cons t ts ih =>
    rw [List.foldl_cons, addMember_eq]
    refine List.Subset.trans (ih _) ?_
    split
    · exact List.append_subset.mpr ⟨List.subset_append_left us _,
        List.Subset.trans (List.subset_cons_self t ts) (List.subset_append_right us _)⟩
    · simp

theorem members_subset (ts : List Ty) : members ts ⊆ openUnions ts := by
  refine List.Subset.trans (foldl_addMember_subset []) ?_
  exact List.append_subset.mpr ⟨List.nil_subset _,
    List.append_subset.mpr ⟨List.filter_sublist.subset, List.filter_sublist.subset⟩⟩

theorem HasValue.of_ofMembers (h : (ofMembers ms).HasValue v) : ∃ m ∈ ms, m.HasValue v := by
  match ms with
  | [m] => exact ⟨m, List.mem_singleton_self m, h⟩
  | [] | _ :: _ :: _ => exact hasValue_union_iff.mp h

theorem HasValue.of_combine (h : (combine ts).HasValue v) : ∃ t ∈ ts, t.HasValue v := by
  by_cases alone : ts.length = 1
  · obtain ⟨t, rfl⟩ := List.length_eq_one_iff.mp alone
    exact ⟨t, List.mem_singleton_self t, h⟩
  rcases combine_cases alone with ⟨e, _⟩ | ⟨e, _⟩ | ⟨e, _⟩ | ⟨e, _⟩ <;> rw [e] at h
  · cases h
  · cases h
  · cases h
  · obtain ⟨m, mem, inner⟩ := h.of_ofMembers
    obtain ⟨t, mem, inner⟩ := inner.of_openUnions (members_subset _ mem)
    exact ⟨t, (mem_live.mp mem).1, inner⟩

end TypeLedger.Ty
