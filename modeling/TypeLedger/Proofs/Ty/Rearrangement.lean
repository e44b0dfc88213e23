import TypeLedger.Proofs.Ty.Comparison
import Mathlib.Data.List.Basic
import Mathlib.Logic.Relation

/-! Sameness of types as rearrangement: types are the same when one can be made from the other by
putting members of unions in another order, repeating them and leaving out repetitions, anywhere in
the type. It is the least congruence under which a union is the set of its members. -/
namespace TypeLedger.Ty

open Relation (ReflTransGen)

variable {a b t : Ty} {as bs ts ms : List Ty} {n : Text} {v : LiteralValue} {R : Ty → Ty → Prop}

/-- One change to the members of a union, which may stand anywhere in a type. -/
inductive Rearranges : Ty → Ty → Prop
  | perm {as bs : List Ty} : as.Perm bs → Rearranges (union as) (union bs)
  | repeated {m : Ty} {ms : List Ty} : m ∈ ms → Rearranges (union ms) (union (m :: ms))
  | dropped {m : Ty} {ms : List Ty} : m ∈ ms → Rearranges (union (m :: ms)) (union ms)
  | arg {n : Text} {before after : List Ty} {a b : Ty} : Rearranges a b →
      Rearranges (named n (before ++ a :: after)) (named n (before ++ b :: after))
  | base {a b : Ty} {v : LiteralValue} : Rearranges a b → Rearranges (literal a v) (literal b v)
  | member {before after : List Ty} {a b : Ty} : Rearranges a b →
      Rearranges (union (before ++ a :: after)) (union (before ++ b :: after))

/-- An equivalence of types that their parts can be replaced under, and under which unions are the
sets of their members. -/
structure Congruence (R : Ty → Ty → Prop) : Prop where
  equivalence : Equivalence R
  arg : ∀ n as bs, List.Forall₂ R as bs → R (named n as) (named n bs)
  base : ∀ a b v, R a b → R (literal a v) (literal b v)
  member : ∀ as bs, List.Forall₂ R as bs → R (union as) (union bs)
  perm : ∀ as bs, as.Perm bs → R (union as) (union bs)
  repeated : ∀ m ms, m ∈ ms → R (union (m :: ms)) (union ms)

theorem same_union_of_forall₂ (h : List.Forall₂ (fun a b => a.same b = true) as bs) :
    (union as).same (union bs) = true := by
  induction h with
  | nil => rfl
  | cons first _ ih =>
    rw [same_union_iff] at ih ⊢
    simp only [List.forall_mem_cons, List.exists_mem_cons_iff]
    exact ⟨⟨.inl first, fun a ha => .inr (ih.1 a ha)⟩, .inl first, fun b hb => .inr (ih.2 b hb)⟩

theorem same_union_of_subset (left : as ⊆ bs) (right : bs ⊆ as) :
    (union as).same (union bs) = true :=
  same_union_iff.mpr ⟨fun a ha => ⟨a, left ha, same_refl a⟩, fun b hb => ⟨b, right hb, same_refl b⟩⟩

theorem congruence_same : Congruence fun a b => a.same b = true where
  equivalence := ⟨same_refl, same_symm, same_trans⟩
  arg _ _ _ args := same_named_iff.mpr ⟨rfl, args⟩
  base _ _ _ base := same_literal_iff.mpr ⟨base, rfl⟩
  member _ _ := same_union_of_forall₂
  perm _ _ h := same_union_of_subset h.subset h.symm.subset
  repeated m ms mem :=
    same_union_of_subset (List.cons_subset.mpr ⟨mem, List.Subset.refl ms⟩) (List.subset_cons_self m ms)

/-- A congruence holds of lists that differ in one place. -/
theorem Congruence.forall₂ (h : Congruence R) (ab : R a b) (before after : List Ty) :
    List.Forall₂ R (before ++ a :: after) (before ++ b :: after) :=
  List.rel_append (List.forall₂_same.mpr fun t _ => h.equivalence.refl t)
    (.cons ab (List.forall₂_same.mpr fun t _ => h.equivalence.refl t))

theorem Congruence.of_rearranges (h : Congruence R) (step : Rearranges a b) : R a b := by
  induction step with
  | perm same => exact h.perm _ _ same
  | repeated mem => exact h.equivalence.symm (h.repeated _ _ mem)
  | dropped mem => exact h.repeated _ _ mem
  | arg _ ih => exact h.arg _ _ _ (h.forall₂ ih _ _)
  | base _ ih => exact h.base _ _ _ ih
  | member _ ih => exact h.member _ _ (h.forall₂ ih _ _)

theorem Congruence.of_rearranged (h : Congruence R) (steps : ReflTransGen Rearranges a b) : R a b := by
  induction steps with
  | refl => exact h.equivalence.refl a
  | tail _ last ih => exact h.equivalence.trans ih (h.of_rearranges last)

/-- The parts of a type are rearranged one after the other. -/
theorem rearranged_parts {f : List Ty → Ty}
    (step : ∀ before a b after, Rearranges a b →
      Rearranges (f (before ++ a :: after)) (f (before ++ b :: after)))
    (h : List.Forall₂ (ReflTransGen Rearranges) as bs) (before : List Ty) :
    ReflTransGen Rearranges (f (before ++ as)) (f (before ++ bs)) := by
  induction h generalizing before with
  | nil => exact .refl
  | @cons a b as bs first _ ih =>
    have head : ReflTransGen Rearranges (f (before ++ a :: as)) (f (before ++ b :: as)) :=
      first.lift (fun t => f (before ++ t :: as)) fun a b => step before a b as
    have tail := ih (before ++ [b])
    rw [List.append_assoc, List.append_assoc] at tail
    exact head.trans tail

theorem rearranged_repeated (h : as ⊆ ts) :
    ReflTransGen Rearranges (union ts) (union (as ++ ts)) := by
  induction as with
  | nil => exact .refl
  | cons a as ih =>
    obtain ⟨mem, rest⟩ := List.cons_subset.mp h
    exact (ih rest).tail (.repeated (List.mem_append_right as mem))

theorem rearranged_dropped (h : as ⊆ ts) :
    ReflTransGen Rearranges (union (as ++ ts)) (union ts) := by
  induction as with
  | nil => exact .refl
  | cons a as ih =>
    obtain ⟨mem, rest⟩ := List.cons_subset.mp h
    exact .head (.dropped (List.mem_append_right as mem)) (ih rest)

/-- The members that are found for members. -/
theorem exists_forall₂_subset (h : ∀ a ∈ as, ∃ b ∈ bs, R a b) :
    ∃ found ⊆ bs, List.Forall₂ R as found := by
  induction as with
  | nil => exact ⟨[], List.nil_subset bs, .nil⟩
  | cons a as ih =>
    obtain ⟨first, rest⟩ := List.forall_mem_cons.mp h
    obtain ⟨b, mem, ab⟩ := first
    obtain ⟨found, sub, each⟩ := ih rest
    exact ⟨b :: found, List.cons_subset.mpr ⟨mem, sub⟩, .cons ab each⟩

/-- Members that each have a counterpart in the other union: those that the other union needs are
repeated, all are made into their counterparts, and what is then there twice is dropped. -/
theorem rearranged_union (left : ∀ a ∈ as, ∃ b ∈ bs, ReflTransGen Rearranges a b)
    (right : ∀ b ∈ bs, ∃ a ∈ as, ReflTransGen Rearranges a b) :
    ReflTransGen Rearranges (union as) (union bs) := by
  obtain ⟨images, within, forward⟩ := exists_forall₂_subset left
  obtain ⟨sources, known, backward⟩ := exists_forall₂_subset right
  calc ReflTransGen Rearranges (union as) (union (sources ++ as)) := rearranged_repeated known
    ReflTransGen Rearranges _ (union (bs ++ images)) :=
      rearranged_parts (fun _ _ _ _ => .member) (List.rel_append backward.flip forward) []
    ReflTransGen Rearranges _ (union (images ++ bs)) :=
      .single (.perm List.perm_append_comm)
    ReflTransGen Rearranges _ (union bs) := rearranged_dropped within

theorem rearranged_of_same (h : a.same b = true) : ReflTransGen Rearranges a b := by
  induction a generalizing b with
  | unknown | any | never | null =>
    rw [eq_of_plain (kind_eq_of_same h) rfl]
  | named n as ih =>
    obtain ⟨bs, rfl, args⟩ := same_named_left h
    refine rearranged_parts (fun _ _ _ _ => .arg) ?_ []
    exact ((List.forall₂_and_left _ _).mpr ⟨ih, args⟩).imp fun _ _ ⟨each, same⟩ => each same
  | literal base v ih =>
    obtain ⟨b, rfl, same⟩ := same_literal_left h
    exact (ih same).lift (literal · v) fun _ _ => .base
  | union as ih =>
    obtain ⟨bs, rfl, left, right⟩ := same_union_left h
    apply rearranged_union
    · intro a ha
      obtain ⟨b, hb, same⟩ := left a ha
      exact ⟨b, hb, ih a ha same⟩
    · intro b hb
      obtain ⟨a, ha, same⟩ := right b hb
      exact ⟨a, ha, ih a ha same⟩

theorem same_iff_rearranged : a.same b = true ↔ ReflTransGen Rearranges a b := by
  constructor
  · exact rearranged_of_same
  · exact congruence_same.of_rearranged

/-- Sameness is the least congruence: types are the same if and only if one can be rearranged into
the other. Hence types of different kinds, classes of different names or numbers of arguments and
literals of different values never are; and a comparison that stops at types that are one object
answers the same. -/
theorem same_is_least_congruence :
    Congruence (fun a b => a.same b = true) ∧
    (∀ a b : Ty, a.same b = true ↔ ReflTransGen Rearranges a b) ∧
    (∀ R, Congruence R → ∀ a b, a.same b = true → R a b) ∧
    (∀ a b : Ty, a.same b = true → a.kind = b.kind) ∧
    (∀ n m as bs, (named n as).same (named m bs) = true → n = m ∧ as.length = bs.length) ∧
    (∀ a b v w, (literal a v).same (literal b w) = true → v = w) ∧
    ∀ a b r, Answers a b r ↔ r = a.same b := by
  refine ⟨congruence_same, fun _ _ => same_iff_rearranged, ?_, fun _ _ => kind_eq_of_same, ?_, ?_,
    fun _ _ _ => answers_iff⟩
  · intro R congruence a b same
    exact congruence.of_rearranged (rearranged_of_same same)
  · intro n m as bs same
    obtain ⟨names, args⟩ := same_named_iff.mp same
    exact ⟨names, args.length_eq⟩
  · intro a b v w same
    exact (same_literal_iff.mp same).2

/-- Members of a union that is an argument, and a literal over one that is itself over a union. -/
theorem same_is_least_congruence_nested :
    let int : Ty := .named "int" []
    let a : Ty := .named "list" [.union [int, .null, int], .literal (.union [int, int]) (.bool true)]
    let b : Ty := .named "list" [.union [.null, int], .literal (.union [int]) (.bool true)]
    let c : Ty := .named "list" [.union [.null, int], .literal (.union [int]) (.int 1)]
    ReflTransGen Rearranges a b ∧ ¬ReflTransGen Rearranges a c ∧
      (∀ r, Answers a b r ↔ r = true) ∧ ∀ R, Congruence R → R a b := by
  intro int a b c
  obtain ⟨_, rearranged, least, _, _, _, answers⟩ := same_is_least_congruence
  have same : a.same b = true := by decide
  refine ⟨(rearranged a b).mp same, ?_, ?_, fun R congruence => least R congruence a b same⟩
  · exact mt (rearranged a c).mpr (by decide)
  · intro r
    rw [answers, same]

end TypeLedger.Ty
