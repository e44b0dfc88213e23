import TypeLedger.Proofs.Ty.Members
import TypeLedger.Proofs.Ty.Order

/-! Laws of combining types in normal form. A combination among other types may be opened: what is
dropped, moved and absorbed in it is dropped, moved and absorbed without it, and the order of members
is the same. Which types there are settles a combination up to sameness. -/
namespace TypeLedger.Ty

variable {className : Text → Prop} {ts us ys : List Ty}

theorem parts_ofMembers (h : ∀ t ∈ ts, t.isPart = true) : (ofMembers ts).parts = ts := by
  match ts with
  | [t] =>
    have part := h t List.mem_cons_self
    cases t <;> first | contradiction | rfl
  | [] | _ :: _ :: _ => rfl

theorem parts_flatMap (h : ∀ t ∈ ts, Definite className t) :
    ∀ p ∈ ts.flatMap parts, p.isPart = true ∧ Normal className p := by
  intro p mem
  obtain ⟨t, ht, inner⟩ := List.mem_flatMap.mp mem
  obtain ⟨normal, reduced⟩ := (h t ht).parts
  exact ⟨reduced.parts p inner, normal p inner⟩

theorem bases_flatMap (h : ∀ t ∈ ts, Definite className t) :
    ∀ base v, literal base v ∈ ts.flatMap parts → base.isLiteral = false :=
  fun _ _ mem => (parts_flatMap h _ mem).2.isLiteral_base

/-- The parts of a combination are what is left of the parts of its types, a type alone included. -/
theorem Definite.parts_combine (h : ∀ t ∈ ts, Definite className t) :
    (Ty.combine ts).parts = reduce (ts.flatMap Ty.parts) := by
  by_cases alone : ts.length = 1
  · obtain ⟨t, rfl⟩ := List.length_eq_one_iff.mp alone
    rw [List.flatMap_singleton, (h t List.mem_cons_self).parts.2.reduce_eq_self]
    rfl
  rcases combine_cases alone with ⟨e, none⟩ | ⟨_, mem⟩ | ⟨_, mem⟩ | ⟨e, _⟩
  · rw [e, ← openUnions_live, none]
    rfl
  · exact absurd rfl (h _ mem).notUnknown
  · exact absurd rfl (h _ mem).notAny
  · rw [e, members_eq (openUnions_live ts ▸ bases_flatMap h), openUnions_live]
    exact parts_ofMembers fun t mem => (parts_flatMap h t (reduce_subset _ mem)).1

theorem combine_eq_any_iff (normal : ∀ t ∈ ts, Normal className t) :
    combine ts = any ↔ any ∈ ts ∧ unknown ∉ ts := by
  by_cases alone : ts.length = 1
  · obtain ⟨t, rfl⟩ := List.length_eq_one_iff.mp alone
    change t = any ↔ _
    rw [List.mem_singleton, List.mem_singleton, eq_comm]
    exact ⟨fun same => ⟨same, by simp [← same]⟩, And.left⟩
  constructor
  · intro absorbed
    have noUnknown : unknown ∉ ts := by
      rw [← combine_eq_unknown_iff normal, absorbed]
      exact nofun
    rcases combine_cases alone with ⟨e, _⟩ | ⟨_, mem⟩ | ⟨_, mem⟩ | ⟨e, _, live⟩
    · cases e.symm.trans absorbed
    · exact absurd mem noUnknown
    · exact ⟨mem, noUnknown⟩
    · exact absurd absorbed (definite_of_remain normal live e).notAny
  · rintro ⟨mem, noUnknown⟩
    exact combine_of_any alone noUnknown mem

theorem ofMembers_ne_never (parts : ∀ t ∈ ts, t.isPart = true) : ofMembers ts ≠ never := by
  match ts with
  | [t] =>
    rintro rfl
    cases parts _ List.mem_cons_self
  | [] | _ :: _ :: _ => exact nofun

theorem combine_eq_never_iff (normal : ∀ t ∈ ts, Normal className t) :
    combine ts = never ↔ ∀ t ∈ ts, t = never := by
  by_cases alone : ts.length = 1
  · obtain ⟨t, rfl⟩ := List.length_eq_one_iff.mp alone
    rw [List.forall_mem_singleton]
    rfl
  constructor
  · intro empty
    rcases combine_cases alone with ⟨_, none⟩ | ⟨e, _⟩ | ⟨e, _⟩ | ⟨e, _, live⟩
    · exact live_eq_nil_iff.mp none
    · cases e.symm.trans empty
    · cases e.symm.trans empty
    · have remain := ofMembers_ne_never fun _ => isPart_of_mem_members normal live
      exact absurd (e.symm.trans empty) remain
  · exact combine_of_never alone

theorem mem_nested (xs zs : List Ty) {u : Ty} (h : combine ys = u ↔ u ∈ ys) :
    u ∈ xs ++ [combine ys] ++ zs ↔ u ∈ xs ++ ys ++ zs := by
  simp only [List.mem_append, List.mem_singleton, @eq_comm _ u, h]

/-- A combination of types in normal form may be opened among any types. What absorbs the others in it
absorbs them all. -/
theorem combine_append_combine (xs zs : List Ty) (some : ys ≠ [])
    (normal : ∀ t ∈ ys, Normal className t) :
    combine (xs ++ [combine ys] ++ zs) = combine (xs ++ ys ++ zs) := by
  by_cases alone : ys.length = 1
  · obtain ⟨t, rfl⟩ := List.length_eq_one_iff.mp alone
    rfl
  by_cases whole : xs.length + zs.length = 0
  · obtain ⟨rfl, rfl⟩ : xs = [] ∧ zs = [] := by simpa using whole
    simp only [List.nil_append, List.append_nil]
    rfl
  have several : ys.length ≠ 0 := mt List.length_eq_zero_iff.mp some
  have noUnknown (top : unknown ∉ xs ++ ys ++ zs) : unknown ∉ ys := fun mem => top (by simp [mem])
  apply combine_congr
  · simp only [List.length_append, List.length_singleton]
    omega
  · simp only [List.length_append]
    omega
  · simp only [List.forall_mem_append, List.forall_mem_singleton, combine_eq_never_iff normal]
  · exact mem_nested xs zs (combine_eq_unknown_iff normal)
  · intro top
    exact mem_nested xs zs ((combine_eq_any_iff normal).trans (and_iff_left (noUnknown top)))
  · intro top mark
    have definite : ∀ t ∈ ys, Definite className t := fun t mem =>
      ⟨normal t mem, fun e => noUnknown top (e ▸ mem), fun e => mark (by simp [← e, mem])⟩
    simp only [members, openUnions_live, List.flatMap_append, List.flatMap_singleton,
      Definite.parts_combine definite]
    exact foldl_reduce _ _ _ (bases_flatMap definite)

/-- Groups of types in normal form may be combined one by one first. -/
theorem combine_map_combine {groups : List (List Ty)} (xs : List Ty)
    (h : ∀ group ∈ groups, group ≠ [] ∧ ∀ t ∈ group, Normal className t) :
    combine (xs ++ groups.map combine) = combine (xs ++ groups.flatten) := by
  induction groups generalizing xs with
  | nil => rfl
  | cons group groups ih =>
    obtain ⟨⟨some, normal⟩, others⟩ := List.forall_mem_cons.mp h
    calc combine (xs ++ (group :: groups).map combine)
      _ = combine (xs ++ [combine group] ++ groups.map combine) := by simp
      _ = combine (xs ++ group ++ groups.map combine) := combine_append_combine xs _ some normal
      _ = combine (xs ++ group ++ groups.flatten) := ih (xs ++ group) others
      _ = combine (xs ++ (group :: groups).flatten) := by simp

/-- Types in normal form that are combined on their own and then with others, whatever these are,
combine as they do with the others at once, members in order included. -/
theorem nested_combination_flattens (xs ys zs : List Ty) (some : ys ≠ [])
    (normal : ∀ t ∈ ys, Normal className t) :
    ∃ inner whole, combineSome ys = .ok inner ∧
      combineSome (xs ++ [inner] ++ zs) = .ok whole ∧ combineSome (xs ++ ys ++ zs) = .ok whole := by
  refine ⟨combine ys, combine (xs ++ ys ++ zs), combineSome_of_ne_nil some, ?_, ?_⟩
  · rw [combineSome_of_ne_nil (by simp), combine_append_combine xs zs some normal]
  · exact combineSome_of_ne_nil (by simp [some])

/-- A class absorbs literals that come before it, from inside a combination and from outside. -/
theorem nested_combination_flattens_absorbed :
    combineSome [ofValue (.str "a"), .never, .named "int" []] =
      .ok (.union [.named "int" [], ofValue (.str "a")]) ∧
    combineSome ([ofValue (.int 3)] ++ [.union [.named "int" [], ofValue (.str "a")]] ++
      [.named "str" [], .null]) = .ok (.union [.named "int" [], .named "str" [], .null]) ∧
    combineSome ([ofValue (.int 3)] ++ [ofValue (.str "a"), .never, .named "int" []] ++
      [.named "str" [], .null]) = .ok (.union [.named "int" [], .named "str" [], .null]) := by
  have int : Normal (fun _ => True) (.named "int" []) := .named trivial (List.forall_mem_nil _)
  have normal : ∀ t ∈ [ofValue (.str "a"), .never, .named "int" []],
      Normal (fun _ => True) t := by
    simp [ofValue, int, Normal.literal, Normal.never]
  obtain ⟨inner, whole, combined, nested, flat⟩ := nested_combination_flattens
    [ofValue (.int 3)] _ [.named "str" [], .null] (List.cons_ne_nil _ _) normal
  have shape : combineSome [ofValue (.str "a"), .never, .named "int" []] =
      .ok (.union [.named "int" [], ofValue (.str "a")]) := rfl
  obtain rfl := Except.ok.inj (shape.symm.trans combined)
  have result : combineSome ([ofValue (.int 3)] ++
      [.union [.named "int" [], ofValue (.str "a")]] ++ [.named "str" [], .null]) =
      .ok (.union [.named "int" [], .named "str" [], .null]) := rfl
  obtain rfl := Except.ok.inj (result.symm.trans nested)
  exact ⟨combined, nested, flat⟩

theorem extents_subset (h : ∀ t ∈ ts, ∃ u ∈ us, t.same u = true) :
    ⋃ t ∈ ts, t.extent ⊆ ⋃ u ∈ us, u.extent := by
  refine Set.iUnion₂_subset fun t ht => ?_
  obtain ⟨u, hu, same⟩ := h t ht
  rw [extent_eq_of_same same]
  exact Set.subset_biUnion_of_mem hu

/-- The extent of a combination does not tell how its types are ordered, repeated or spelt. -/
theorem combine_same_combine (normal : ∀ t ∈ ts ++ us, Normal className t)
    (left : ∀ t ∈ ts, ∃ u ∈ us, t.same u = true) (right : ∀ u ∈ us, ∃ t ∈ ts, u.same t = true) :
    (combine ts).same (combine us) = true := by
  obtain ⟨normalTs, normalUs⟩ := List.forall_mem_append.mp normal
  apply (Normal.combine normalTs).same_of_extent_eq (.combine normalUs)
  rw [extent_combine normalTs, extent_combine normalUs]
  exact (extents_subset left).antisymm (extents_subset right)

/-- Lists of types in normal form that hold the same types have combinations that are the same. A type
that is repeated is the same as its combination. -/
theorem combination_of_set :
    (∀ ts us : List Ty, ts ≠ [] → us ≠ [] → (∀ t ∈ ts ++ us, Normal className t) →
      (∀ t ∈ ts, ∃ u ∈ us, t.same u = true) → (∀ u ∈ us, ∃ t ∈ ts, u.same t = true) →
      ∃ a b, combineSome ts = .ok a ∧ combineSome us = .ok b ∧ a.same b = true) ∧
    ∀ (t : Ty) (n : Nat), Normal className t →
      ∃ a, combineSome (List.replicate (n + 1) t) = .ok a ∧ a.same t = true := by
  constructor
  · intro ts us someTs someUs normal left right
    exact ⟨combine ts, combine us, combineSome_of_ne_nil someTs, combineSome_of_ne_nil someUs,
      combine_same_combine normal left right⟩
  · intro t n normal
    have repeated : ∀ u ∈ List.replicate (n + 1) t ++ [t], Normal className u := by
      simpa using normal
    refine ⟨combine (List.replicate (n + 1) t), combineSome_of_ne_nil (by simp), ?_⟩
    exact combine_same_combine repeated (by simp [same_refl]) (by simp [same_refl])

/-- The order of members goes with the first form of a type, here in either order. -/
theorem combination_of_set_reordered :
    combineSome [ofValue (.str "a"), .union [.null, .named "int" []],
        .union [.named "int" [], .null]] =
      .ok (.union [.null, .named "int" [], ofValue (.str "a")]) ∧
    combineSome [.union [.named "int" [], .null], ofValue (.str "a")] =
      .ok (.union [.named "int" [], .null, ofValue (.str "a")]) ∧
    (Ty.union [.null, .named "int" [], ofValue (.str "a")]).same
      (.union [.named "int" [], .null, ofValue (.str "a")]) = true ∧
    ∃ a, combineSome (List.replicate 3 (.union [.null, .named "int" []])) = .ok a ∧
      a.same (.union [.null, .named "int" []]) = true := by
  have int : Normal (fun _ => True) (.named "int" []) := .named trivial (List.forall_mem_nil _)
  have nullInt : Normal (fun _ => True) (.union [.null, .named "int" []]) := by
    change Normal _ (combine [.null, .named "int" []])
    exact .combine (by simp [int, Normal.null])
  have intNull : Normal (fun _ => True) (.union [.named "int" [], .null]) := by
    change Normal _ (combine [.named "int" [], .null])
    exact .combine (by simp [int, Normal.null])
  have normal : ∀ t ∈ [ofValue (.str "a"), .union [.null, .named "int" []],
      .union [.named "int" [], .null]] ++ [.union [.named "int" [], .null], ofValue (.str "a")],
      Normal (fun _ => True) t := by
    simp [ofValue, nullInt, intNull, Normal.literal]
  obtain ⟨a, b, first, second, same⟩ := combination_of_set.1 _ _ (List.cons_ne_nil _ _)
    (List.cons_ne_nil _ _) normal (by decide) (by decide)
  have shape : combineSome [ofValue (.str "a"), .union [.null, .named "int" []],
      .union [.named "int" [], .null]] =
      .ok (.union [.null, .named "int" [], ofValue (.str "a")]) := rfl
  have shape' : combineSome [.union [.named "int" [], .null], ofValue (.str "a")] =
      .ok (.union [.named "int" [], .null, ofValue (.str "a")]) := rfl
  obtain rfl := Except.ok.inj (shape.symm.trans first)
  obtain rfl := Except.ok.inj (shape'.symm.trans second)
  exact ⟨first, second, same, combination_of_set.2 _ 2 nullInt⟩

end TypeLedger.Ty
