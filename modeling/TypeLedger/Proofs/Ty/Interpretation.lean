import TypeLedger.Proofs.Ty.Combine
import Mathlib.Data.Set.Lattice

/-! Types read as sets of values. Whatever the sets are that classes and literals stand for, a
combination stands for the union of the sets of its types: what is dropped, opened, moved or absorbed
neither loses a value nor adds one. -/
namespace TypeLedger.Ty

universe u

variable {p t a b : Ty} {ts us : List Ty}

/-- A reading of types as sets. Types that are the same are not told apart, and the values of a
literal are values of its base. -/
structure Interpretation (α : Type u) where
  meaning : Ty → Set α
  unknown : meaning unknown = Set.univ
  any : meaning any = Set.univ
  never : meaning never = ∅
  named_congr {n m : Text} {as bs : List Ty} :
    (named n as).same (named m bs) = true → meaning (named n as) = meaning (named m bs)
  literal_congr {a b : Ty} {v w : LiteralValue} :
    (literal a v).same (literal b w) = true → meaning (literal a v) = meaning (literal b w)
  literal_subset (base : Ty) (v : LiteralValue) : meaning (literal base v) ⊆ meaning base
  union (ms : List Ty) : meaning (union ms) = ⋃ m ∈ ms, meaning m

/-- A type as a value of another one: a literal is its value, `None` its own, and a class an instance
of it that no literal has for its value. -/
inductive Belongs (p : Ty) : Ty → Prop
  | unknown : Belongs p unknown
  | any : Belongs p any
  | null : p = null → Belongs p null
  | named {n : Text} {args : List Ty} : p.same (named n args) = true → Belongs p (named n args)
  | valued {n : Text} {args : List Ty} {base : Ty} {v : LiteralValue} :
    p = literal base v → base.same (named n args) = true → Belongs p (named n args)
  | literal {base : Ty} {v : LiteralValue} :
    p.same (literal base v) = true → Belongs p base → Belongs p (literal base v)
  | union {ms : List Ty} {m : Ty} : m ∈ ms → Belongs p m → Belongs p (union ms)

theorem Belongs.of_same (h : Belongs p a) (same : a.same b = true) : Belongs p b := by
  induction h generalizing b with
  | unknown =>
    cases b <;> first | exact .unknown | cases same
  | any =>
    cases b <;> first | exact .any | cases same
  | null isNull =>
    cases b <;> first | exact .null isNull | cases same
  | named of =>
    obtain ⟨_, rfl, _⟩ := same_named_left same
    exact .named (same_trans of same)
  | valued isLiteral of =>
    obtain ⟨_, rfl, _⟩ := same_named_left same
    exact .valued isLiteral (same_trans of same)
  | literal value _ ih =>
    obtain ⟨_, rfl, base⟩ := same_literal_left same
    exact .literal (same_trans value same) (ih base)
  | union mem _ ih =>
    obtain ⟨_, rfl, left, _⟩ := same_union_left same
    obtain ⟨m, hm, same⟩ := left _ mem
    exact .union hm (ih same)

theorem belongs_iff_of_same (same : a.same b = true) : Belongs p a ↔ Belongs p b :=
  ⟨(·.of_same same), (·.of_same (same_symm same))⟩

theorem belongs_union_iff : Belongs p (.union ts) ↔ ∃ t ∈ ts, Belongs p t := by
  constructor
  · intro h
    cases h with
    | union mem inner => exact ⟨_, mem, inner⟩
  · rintro ⟨t, mem, inner⟩
    exact .union mem inner

namespace Interpretation

/-- The reading of a type as the types that belong to it. -/
def generic : Interpretation Ty where
  meaning t := {p | Belongs p t}
  unknown := Set.eq_univ_of_forall fun _ => .unknown
  any := Set.eq_univ_of_forall fun _ => .any
  never := Set.eq_empty_of_forall_notMem fun _ h => nomatch h
  named_congr same := Set.ext fun _ => belongs_iff_of_same same
  literal_congr same := Set.ext fun _ => belongs_iff_of_same same
  literal_subset _ _ _ h := by
    cases h with
    | literal _ base => exact base
  union ms := by
    ext p
    simp [belongs_union_iff]

variable {α : Type u} (I : Interpretation α)

/-- Sameness is sound: it holds of classes and literals by assumption, and of unions because each
member has a counterpart. -/
theorem meaning_eq_of_same (h : a.same b = true) : I.meaning a = I.meaning b := by
  induction a generalizing b with
  | unknown | any | never | null => cases b <;> first | rfl | cases h
  | named n as _ =>
    obtain ⟨bs, rfl, _⟩ := same_named_left h
    exact I.named_congr h
  | literal base v _ =>
    obtain ⟨base', rfl, _⟩ := same_literal_left h
    exact I.literal_congr h
  | union as ih =>
    obtain ⟨bs, rfl, left, right⟩ := same_union_left h
    rw [I.union, I.union]
    apply Set.Subset.antisymm
    · refine Set.iUnion₂_subset fun a ha => ?_
      obtain ⟨b, hb, same⟩ := left a ha
      rw [ih a ha same]
      exact Set.subset_biUnion_of_mem hb
    · refine Set.iUnion₂_subset fun b hb => ?_
      obtain ⟨a, ha, same⟩ := right b hb
      rw [← ih a ha same]
      exact Set.subset_biUnion_of_mem ha

/-- The values of the types of a list, taken together. -/
def all (ts : List Ty) : Set α := ⋃ t ∈ ts, I.meaning t

theorem mem_all {x : α} : x ∈ I.all ts ↔ ∃ t ∈ ts, x ∈ I.meaning t := by
  simp [all]

theorem subset_all (h : t ∈ ts) : I.meaning t ⊆ I.all ts := Set.subset_biUnion_of_mem h

theorem all_congr (h : ∀ t, t ∈ ts ↔ t ∈ us) : I.all ts = I.all us := by
  simp only [all, h]

theorem all_nil : I.all [] = ∅ := by
  simp [all]

theorem all_cons (t : Ty) (ts : List Ty) : I.all (t :: ts) = I.meaning t ∪ I.all ts := by
  simp [all, Set.iUnion_or, Set.iUnion_union_distrib]

theorem all_singleton (t : Ty) : I.all [t] = I.meaning t := by
  rw [all_cons, all_nil, Set.union_empty]

theorem all_append (ts us : List Ty) : I.all (ts ++ us) = I.all ts ∪ I.all us := by
  induction ts with
  | nil => rw [all_nil, List.nil_append, Set.empty_union]
  | cons t ts ih => rw [List.cons_append, all_cons, all_cons, ih, Set.union_assoc]

theorem subset_all_of_contains (h : contains ts t = true) : I.meaning t ⊆ I.all ts := by
  obtain ⟨u, hu, same⟩ := contains_iff.mp h
  rw [← I.meaning_eq_of_same same]
  exact I.subset_all hu

/-- A type that is left out of the members is the same as one of them, or a literal of one. -/
theorem all_addMember (ts : List Ty) (t : Ty) :
    I.all (addMember ts t) = I.all ts ∪ I.meaning t := by
  rw [addMember_eq]
  split
  next dropped =>
    refine (Set.union_eq_self_of_subset_right ?_).symm
    rcases Bool.or_eq_true_iff.mp dropped with present | gone
    · exact I.subset_all_of_contains present
    · cases t with
      | literal base v =>
        exact (I.literal_subset base v).trans (I.subset_all_of_contains gone)
      | _ => exact Bool.noConfusion gone
  next => rw [all_append, all_singleton]

theorem all_foldl_addMember (ts us : List Ty) :
    I.all (ts.foldl addMember us) = I.all us ∪ I.all ts := by
  induction ts generalizing us with
  | nil => rw [List.foldl_nil, all_nil, Set.union_empty]
  | cons t ts ih => rw [List.foldl_cons, ih, all_addMember, all_cons, Set.union_assoc]

theorem all_literalsLast (ts : List Ty) : I.all (literalsLast ts) = I.all ts := by
  apply I.all_congr
  intro t
  cases lit : t.isLiteral <;> simp [literalsLast, lit]

theorem all_openUnions (ts : List Ty) : I.all (openUnions ts) = I.all ts := by
  induction ts with
  | nil => rfl
  | cons t ts ih =>
    rw [all_cons, ← ih, openUnions, List.flatMap_cons, all_append]
    congr 1
    cases t with
    | union ms => exact (I.union ms).symm
    | _ => exact I.all_singleton _

theorem all_members (ts : List Ty) : I.all (members ts) = I.all ts := by
  rw [members, all_foldl_addMember, all_nil, Set.empty_union, all_literalsLast, all_openUnions]

theorem all_live (ts : List Ty) : I.all (ts.filter (!·.isNever)) = I.all ts := by
  induction ts with
  | nil => rfl
  | cons t ts ih =>
    cases t with
    | never => rw [List.filter_cons_of_neg (by simp [isNever]), ih, all_cons, I.never, Set.empty_union]
    | _ => rw [List.filter_cons_of_pos rfl, all_cons, all_cons, ih]

theorem meaning_ofMembers (ts : List Ty) : I.meaning (ofMembers ts) = I.all ts := by
  match ts with
  | [t] => exact (I.all_singleton t).symm
  | [] | _ :: _ :: _ => exact I.union _

/-- A type that stands for all values leaves nothing to the others. -/
theorem all_eq_univ (mem : t ∈ ts) (whole : I.meaning t = Set.univ) : I.all ts = Set.univ :=
  Set.eq_univ_of_univ_subset (whole ▸ I.subset_all mem)

theorem meaning_combine (ts : List Ty) : I.meaning (combine ts) = I.all ts := by
  by_cases alone : ts.length = 1
  · obtain ⟨t, rfl⟩ := List.length_eq_one_iff.mp alone
    exact (I.all_singleton t).symm
  rcases combine_cases alone with ⟨e, none⟩ | ⟨e, mem⟩ | ⟨e, mem⟩ | ⟨e, _⟩ <;> rw [e]
  · rw [← I.all_live, none, I.never, all_nil]
  · rw [I.unknown, I.all_eq_univ mem I.unknown]
  · rw [I.any, I.all_eq_univ mem I.any]
  · rw [meaning_ofMembers, all_members, all_live]

/-- Types combine, and their combination stands for the values of all of them. -/
theorem meaning_combineSome (h : ts ≠ []) :
    ∃ t, combineSome ts = .ok t ∧ I.meaning t = ⋃ u ∈ ts, I.meaning u := by
  obtain ⟨t, ts, rfl⟩ := List.exists_cons_of_ne_nil h
  exact ⟨combine (t :: ts), rfl, I.meaning_combine _⟩

/-- A literal goes for its base, and a union that stands in another one stays as it is. -/
theorem meaning_combineSome_nested :
    combineSome [ofValue (.int 1), .union [.union [.never, .any], .named "int" []], .union []] =
      .ok (.union [.union [.never, .any], .named "int" []]) ∧
    generic.meaning (.union [.union [.never, .any], .named "int" []]) =
      ⋃ u ∈ [ofValue (.int 1), .union [.union [.never, .any], .named "int" []], .union []],
        generic.meaning u := by
  have shape : combineSome
      [ofValue (.int 1), .union [.union [.never, .any], .named "int" []], .union []] =
      .ok (.union [.union [.never, .any], .named "int" []]) := rfl
  obtain ⟨t, combined, meaning⟩ := generic.meaning_combineSome (List.cons_ne_nil
    (ofValue (.int 1)) [.union [.union [.never, .any], .named "int" []], .union []])
  obtain rfl := Except.ok.inj (shape.symm.trans combined)
  exact ⟨shape, meaning⟩

end Interpretation
end TypeLedger.Ty
