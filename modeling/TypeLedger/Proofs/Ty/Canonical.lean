import TypeLedger.Proofs.Ty.Congruence
import TypeLedger.Proofs.Ty.Interpretation
import TypeLedger.Proofs.Ty.Normal
import TypeLedger.Proofs.Ty.Values

/-! Normal forms are canonical: of types other than `Unknown` and `Any`, two that stand for the same
values whatever their classes and literals stand for are the same. The generic reading tells all
others apart. -/
namespace TypeLedger.Ty

variable {className : Text → Prop} {p q a b t : Ty} {ts us : List Ty}

/-- The members of a union, and any other type with values as the one member of it. -/
def parts : Ty → List Ty
  | never => []
  | union ms => ms
  | t => [t]

/-- What a combination opens are the parts of its types. -/
theorem openUnions_live (ts : List Ty) :
    openUnions (ts.filter (!·.isNever)) = ts.flatMap parts := by
  induction ts with
  | nil => rfl
  | cons t ts ih =>
    rw [List.flatMap_cons, ← ih]
    cases t with
    | never => rfl
    | _ => rfl

/-- A type in normal form that absorbs nothing when it is combined. -/
structure Definite (className : Text → Prop) (t : Ty) : Prop where
  normal : Normal className t
  notUnknown : t ≠ unknown
  notAny : t ≠ any

theorem reduced_singleton (part : t.isPart = true) (normal : Normal className t) : Reduced [t] where
  parts := by simpa using part
  distinct := List.pairwise_singleton _ t
  literalsLast := List.pairwise_singleton _ t
  notAbsorbed base v mem u hu same := by
    obtain rfl := List.mem_singleton.mp mem
    obtain rfl := List.mem_singleton.mp hu
    have kind := isLiteral_of_same same
    rw [normal.isLiteral_base] at kind
    exact Bool.noConfusion kind

theorem Definite.parts (h : Definite className t) :
    (∀ m ∈ t.parts, Normal className m) ∧ Reduced t.parts := by
  have single (part : t.isPart = true) : (∀ m ∈ [t], Normal className m) ∧ Reduced [t] :=
    ⟨by simpa using h.normal, reduced_singleton part h.normal⟩
  cases h.normal with
  | unknown => exact absurd rfl h.notUnknown
  | any => exact absurd rfl h.notAny
  | never => exact ⟨List.forall_mem_nil _, by simp [Ty.parts], .nil, .nil, by simp [Ty.parts]⟩
  | null | named | literal => exact single rfl
  | union several normal reduced => exact ⟨normal, reduced⟩

theorem Normal.eq_never (h : Normal className t) (none : t.parts = []) : t = Ty.never := by
  cases h with
  | never => rfl
  | union several =>
    rw [Ty.parts] at none
    subst none
    contradiction
  | _ => cases none

theorem Normal.ofMembers_parts (h : Normal className t) (some : t.parts ≠ []) :
    Ty.ofMembers t.parts = t := by
  cases h with
  | never => exact absurd rfl some
  | @union ms several =>
    match ms, several with
    | _ :: _ :: _, _ => rfl
  | _ => rfl

/-- Types in normal form are the same if their parts are. -/
theorem Definite.same_of_alike (ha : Definite className a) (hb : Definite className b)
    (h : Alike a.parts b.parts) : a.same b = true := by
  by_cases none : a.parts = []
  · have none' : b.parts = [] := List.isEmpty_iff.mp (by rw [← h.isEmpty, none, List.isEmpty_nil])
    rw [ha.normal.eq_never none, hb.normal.eq_never none']
    rfl
  · have some : b.parts ≠ [] := by
      rwa [← List.isEmpty_eq_false_iff, ← h.isEmpty, List.isEmpty_eq_false_iff]
    rw [← ha.normal.ofMembers_parts none, ← hb.normal.ofMembers_parts some]
    exact h.same_ofMembers ha.parts.2.distinct hb.parts.2.distinct

theorem belongs_iff_parts : Belongs p t ↔ ∃ m ∈ t.parts, Belongs p m := by
  cases t with
  | never =>
    constructor
    · exact fun h => nomatch h
    · rintro ⟨_, mem, _⟩
      cases mem
  | union ms => exact belongs_union_iff
  | _ => simp [parts]

/-- A part is a value of its own. -/
theorem belongs_self (normal : Normal className p) (part : p.isPart = true) : Belongs p p := by
  cases normal with
  | null => exact .null rfl
  | named => exact .named (same_refl _)
  | literal v =>
    refine .literal (same_refl _) ?_
    cases v <;> exact .valued rfl (same_refl _)
  | _ => cases part

/-- The values of a part are those of its forms and, of a class, its literals. -/
theorem Belongs.same_or_base (h : Belongs p q) (part : q.isPart = true) :
    p.same q = true ∨ ∃ base v, p = .literal base v ∧ base.same q = true := by
  cases h with
  | null isNull =>
    rw [isNull]
    exact .inl rfl
  | named same => exact .inl same
  | valued isLiteral same => exact .inr ⟨_, _, isLiteral, same⟩
  | literal same _ => exact .inl same
  | _ => cases part

/-- A part whose value is found among other parts is one of them. If it were only a literal of one,
the generic value of that class would be missing among the parts it comes from. -/
theorem exists_same_of_belongs (hts : Reduced ts) (hus : Reduced us)
    (normalTs : ∀ t ∈ ts, Normal className t) (normalUs : ∀ u ∈ us, Normal className u)
    (h : ∀ p, (∃ t ∈ ts, Belongs p t) ↔ ∃ u ∈ us, Belongs p u) (mem : p ∈ ts) :
    ∃ u ∈ us, u.same p = true := by
  obtain ⟨u, hu, value⟩ := (h p).mp ⟨p, mem, belongs_self (normalTs p mem) (hts.parts p mem)⟩
  rcases value.same_or_base (hus.parts u hu) with same | ⟨base, v, rfl, ofBase⟩
  · exact ⟨u, hu, same_symm same⟩
  · -- The part is a literal of the class `u`, and `u` has to come from `ts` as well.
    exfalso
    have notLiteral := (normalTs _ mem).isLiteral_base
    obtain ⟨t, ht, value⟩ := (h u).mpr ⟨u, hu, belongs_self (normalUs u hu) (hus.parts u hu)⟩
    rcases value.same_or_base (hts.parts t ht) with same | ⟨_, _, rfl, _⟩
    · exact hts.notAbsorbed base v mem t ht (same_symm (same_trans ofBase same))
    · rw [isLiteral_of_same ofBase] at notLiteral
      exact Bool.noConfusion notLiteral

theorem Definite.same_of_meaning_eq (ha : Definite className a) (hb : Definite className b)
    (h : Interpretation.generic.meaning a = Interpretation.generic.meaning b) :
    a.same b = true := by
  have values (p : Ty) : (∃ m ∈ a.parts, Belongs p m) ↔ ∃ m ∈ b.parts, Belongs p m := by
    rw [← belongs_iff_parts, ← belongs_iff_parts]
    exact Set.ext_iff.mp h p
  obtain ⟨normalA, reducedA⟩ := ha.parts
  obtain ⟨normalB, reducedB⟩ := hb.parts
  refine ha.same_of_alike hb (alike_of_exists_same ?_ ?_)
  · intro m hm
    exact exists_same_of_belongs reducedA reducedB normalA normalB values hm
  · intro m hm
    exact exists_same_of_belongs reducedB reducedA normalB normalA (fun p => (values p).symm) hm

theorem definite_ofMembers (normal : Normal className (ofMembers ts))
    (parts : ∀ t ∈ ts, t.isPart = true) : Definite className (ofMembers ts) := by
  suffices known : ofMembers ts ≠ Ty.unknown ∧ ofMembers ts ≠ Ty.any from
    ⟨normal, known.1, known.2⟩
  match ts with
  | [t] =>
    have part := parts t List.mem_cons_self
    cases t with
    | null | named | literal => simp [ofMembers]
    | _ => cases part
  | [] | _ :: _ :: _ => simp [ofMembers]

theorem isPart_of_mem_members (normal : ∀ t ∈ ts, Normal className t)
    (live : ∀ t ∈ ts.filter (!·.isNever),
      t.isNever = false ∧ t.isUnknown = false ∧ t.isAny = false)
    (mem : p ∈ members (ts.filter (!·.isNever))) : p.isPart = true :=
  (openUnions_parts (fun t ht => normal t (mem_live.mp ht).1) live (members_subset _ mem)).1

/-- What remains of types of which none absorbs the others absorbs nothing itself. -/
theorem definite_of_remain (normal : ∀ t ∈ ts, Normal className t)
    (live : ∀ t ∈ ts.filter (!·.isNever),
      t.isNever = false ∧ t.isUnknown = false ∧ t.isAny = false)
    (remain : combine ts = ofMembers (members (ts.filter (!·.isNever)))) :
    Definite className (combine ts) := by
  have result : Normal className (combine ts) := .combine normal
  rw [remain] at result ⊢
  exact definite_ofMembers result fun _ => isPart_of_mem_members normal live

theorem Definite.combine (h : ∀ t ∈ ts, Definite className t) :
    Definite className (combine ts) := by
  by_cases alone : ts.length = 1
  · obtain ⟨t, rfl⟩ := List.length_eq_one_iff.mp alone
    exact h t List.mem_cons_self
  rcases combine_cases alone with ⟨e, _⟩ | ⟨_, mem⟩ | ⟨_, mem⟩ | ⟨e, _, live⟩
  · exact e ▸ ⟨.never, nofun, nofun⟩
  · exact absurd rfl (h _ mem).notUnknown
  · exact absurd rfl (h _ mem).notAny
  · exact definite_of_remain (fun t ht => (h t ht).normal) live e

/-- Types in normal form that stand for the same values in every reading are the same, and so are
combinations of types that together stand for the same values. -/
theorem same_of_same_values :
    (∀ a b, Definite className a → Definite className b →
      (∀ (α : Type) (I : Interpretation α), I.meaning a = I.meaning b) → a.same b = true) ∧
    ∀ ts us, ts ≠ [] → us ≠ [] → (∀ t ∈ ts ++ us, Definite className t) →
      (∀ (α : Type) (I : Interpretation α), ⋃ t ∈ ts, I.meaning t = ⋃ u ∈ us, I.meaning u) →
      ∃ a b, combineSome ts = .ok a ∧ combineSome us = .ok b ∧ a.same b = true := by
  constructor
  · intro a b ha hb h
    exact ha.same_of_meaning_eq hb (h _ _)
  · intro ts us someTs someUs definite h
    obtain ⟨definiteTs, definiteUs⟩ := List.forall_mem_append.mp definite
    obtain ⟨t, ts, rfl⟩ := List.exists_cons_of_ne_nil someTs
    obtain ⟨u, us, rfl⟩ := List.exists_cons_of_ne_nil someUs
    refine ⟨combine (t :: ts), combine (u :: us), rfl, rfl, ?_⟩
    apply (Definite.combine definiteTs).same_of_meaning_eq (Definite.combine definiteUs)
    rw [Interpretation.meaning_combine, Interpretation.meaning_combine]
    exact h _ _

/-- A literal beside its class and the order of members are no differences of meaning. -/
theorem same_of_same_values_reordered :
    (union [.null, .named "int" []]).same (union [.named "int" [], .null]) = true ∧
    ∃ a b, combineSome [ofValue (.int 1), union [.null, .named "int" []]] = .ok a ∧
      combineSome [.named "int" [], .null] = .ok b ∧ a.same b = true := by
  have int : Definite (fun _ => True) (.named "int" []) := ⟨.named trivial (by simp), nofun, nofun⟩
  have one : Definite (fun _ => True) (ofValue (.int 1)) := ⟨.literal _, nofun, nofun⟩
  have null : Definite (fun _ => True) .null := ⟨.null, nofun, nofun⟩
  have nullInt : Definite (fun _ => True) (union [.null, .named "int" []]) := by
    change Definite _ (combine [.null, .named "int" []])
    exact .combine (by simp [null, int])
  have intNull : Definite (fun _ => True) (union [.named "int" [], .null]) := by
    change Definite _ (combine [.named "int" [], .null])
    exact .combine (by simp [null, int])
  have members (α : Type) (I : Interpretation α) : I.meaning (union [.null, .named "int" []]) =
      I.meaning (.named "int" []) ∪ I.meaning .null := by
    simp [I.union, Set.union_comm]
  constructor
  · refine same_of_same_values.1 _ _ nullInt intNull fun α I => ?_
    simp [members, I.union]
  · have definite : ∀ t ∈ [ofValue (.int 1), union [.null, .named "int" []]] ++
        [.named "int" [], .null], Definite (fun _ => True) t := by
      simp [one, int, null, nullInt]
    refine same_of_same_values.2 _ _ (by simp) (by simp) definite fun α I => ?_
    have absorbed : I.meaning (ofValue (.int 1)) ⊆ I.meaning (.named "int" []) :=
      I.literal_subset _ _
    change I.all [_, _] = I.all [_, _]
    rw [I.all_cons, I.all_singleton, I.all_cons, I.all_singleton, members, ← Set.union_assoc,
      Set.union_eq_self_of_subset_left absorbed]

end TypeLedger.Ty
