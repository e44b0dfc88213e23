import TypeLedger.Ty.Same
import Mathlib.Data.List.Forall2

/-! Sameness of types is an equivalence. Nothing is asked of the types: unions may be empty, repeat
members or stand in each other, and a literal may have any base. -/
namespace TypeLedger.Ty

/-- Induction over types, with a hypothesis for each argument and member. -/
@[elab_as_elim, induction_eliminator]
theorem inductionOn {motive : Ty → Prop}
    (unknown : motive unknown) (any : motive any) (never : motive never) (null : motive null)
    (named : ∀ name args, (∀ a ∈ args, motive a) → motive (named name args))
    (literal : ∀ base value, motive base → motive (literal base value))
    (union : ∀ members, (∀ m ∈ members, motive m) → motive (union members)) (t : Ty) :
    motive t :=
  Ty.rec (motive_1 := motive) (motive_2 := fun ts => ∀ t ∈ ts, motive t)
    unknown any never null named literal union (by simp)
    (fun _ _ head tail => List.forall_mem_cons.mpr ⟨head, tail⟩) t

variable {a b c t u : Ty} {as bs ts : List Ty}

theorem sameArgs_iff : sameArgs as bs = true ↔ List.Forall₂ (fun a b => a.same b = true) as bs := by
  induction as generalizing bs with
  | nil => cases bs <;> simp [sameArgs]
  | cons a as ih => cases bs <;> simp [sameArgs, ih]

theorem same_named_iff {n m : Text} : (named n as).same (named m bs) = true ↔
    n = m ∧ List.Forall₂ (fun a b => a.same b = true) as bs := by
  simp [same_named, sameArgs_iff]

theorem same_literal_iff {v w : LiteralValue} :
    (literal a v).same (literal b w) = true ↔ a.same b = true ∧ v = w := by
  simp [same_literal]

theorem contains_iff : contains ts t = true ↔ ∃ u ∈ ts, u.same t = true := by
  simp [contains]

theorem same_union_iff : (union as).same (union bs) = true ↔
    (∀ a ∈ as, ∃ b ∈ bs, a.same b = true) ∧ ∀ b ∈ bs, ∃ a ∈ as, a.same b = true := by
  simp [same_union, contains]

theorem same_refl (t : Ty) : t.same t = true := by
  induction t with
  | unknown | any | never | null => rfl
  | named name args ih => exact same_named_iff.mpr ⟨rfl, List.forall₂_same.mpr ih⟩
  | literal base value ih => exact same_literal_iff.mpr ⟨ih, rfl⟩
  | union members ih =>
    rw [same_union_iff]
    constructor
    · intro m h
      exact ⟨m, h, ih m h⟩
    · intro m h
      exact ⟨m, h, ih m h⟩

/-- What is the same as a class is the class of the same name, with arguments that are the same. -/
theorem same_named_left {n : Text} (h : (named n as).same b = true) :
    ∃ bs, b = named n bs ∧ List.Forall₂ (fun a b => a.same b = true) as bs := by
  cases b with
  | named m bs =>
    obtain ⟨rfl, args⟩ := same_named_iff.mp h
    exact ⟨bs, rfl, args⟩
  | _ => cases h

theorem same_literal_left {v : LiteralValue} (h : (literal a v).same c = true) :
    ∃ b, c = literal b v ∧ a.same b = true := by
  cases c with
  | literal b w =>
    obtain ⟨base, rfl⟩ := same_literal_iff.mp h
    exact ⟨b, rfl, base⟩
  | _ => cases h

theorem same_union_left (h : (union as).same b = true) : ∃ bs, b = union bs ∧
    (∀ a ∈ as, ∃ b ∈ bs, a.same b = true) ∧ ∀ b ∈ bs, ∃ a ∈ as, a.same b = true := by
  cases b with
  | union bs => exact ⟨bs, rfl, same_union_iff.mp h⟩
  | _ => cases h

theorem same_symm (h : a.same b = true) : b.same a = true := by
  induction a generalizing b with
  | unknown | any | never | null => cases b <;> first | rfl | cases h
  | named name args ih =>
    obtain ⟨bs, rfl, args⟩ := same_named_left h
    refine same_named_iff.mpr ⟨rfl, ?_⟩
    clear h
    induction args with
    | nil => exact .nil
    | cons head _ tail =>
      obtain ⟨first, rest⟩ := List.forall_mem_cons.mp ih
      exact .cons (first head) (tail rest)
  | literal base value ih =>
    obtain ⟨b, rfl, base⟩ := same_literal_left h
    exact same_literal_iff.mpr ⟨ih base, rfl⟩
  | union members ih =>
    obtain ⟨bs, rfl, left, right⟩ := same_union_left h
    rw [same_union_iff]
    constructor
    · intro b hb
      obtain ⟨a, ha, same⟩ := right b hb
      exact ⟨a, ha, ih a ha same⟩
    · intro a ha
      obtain ⟨b, hb, same⟩ := left a ha
      exact ⟨b, hb, ih a ha same⟩

theorem same_comm (a b : Ty) : a.same b = b.same a :=
  Bool.eq_iff_iff.mpr ⟨same_symm, same_symm⟩

theorem same_trans (h : a.same b = true) (k : b.same c = true) : a.same c = true := by
  induction a generalizing b c with
  | unknown | any | never | null => cases b <;> first | exact k | cases h
  | named name args ih =>
    obtain ⟨bs, rfl, left⟩ := same_named_left h
    obtain ⟨cs, rfl, right⟩ := same_named_left k
    refine same_named_iff.mpr ⟨rfl, ?_⟩
    clear h k
    induction left generalizing cs with
    | nil => exact right
    | cons head _ tail =>
      cases right with
      | cons next others =>
        obtain ⟨first, rest⟩ := List.forall_mem_cons.mp ih
        exact .cons (first head next) (tail rest _ others)
  | literal base value ih =>
    obtain ⟨b, rfl, left⟩ := same_literal_left h
    obtain ⟨c, rfl, right⟩ := same_literal_left k
    exact same_literal_iff.mpr ⟨ih left right, rfl⟩
  | union members ih =>
    obtain ⟨bs, rfl, left, left'⟩ := same_union_left h
    obtain ⟨cs, rfl, right, right'⟩ := same_union_left k
    rw [same_union_iff]
    constructor
    · intro a ha
      obtain ⟨b, hb, first⟩ := left a ha
      obtain ⟨c, hc, second⟩ := right b hb
      exact ⟨c, hc, ih a ha first second⟩
    · intro c hc
      obtain ⟨b, hb, second⟩ := right' c hc
      obtain ⟨a, ha, first⟩ := left' b hb
      exact ⟨a, ha, ih a ha first second⟩

theorem same_congr_left (h : a.same b = true) (c : Ty) : a.same c = b.same c :=
  Bool.eq_iff_iff.mpr ⟨same_trans (same_symm h), same_trans h⟩

theorem same_congr_right (h : a.same b = true) (c : Ty) : c.same a = c.same b := by
  rw [same_comm c a, same_comm c b, same_congr_left h]

theorem contains_append : contains (as ++ bs) t = (contains as t || contains bs t) :=
  List.any_append ..

theorem isLiteral_of_same (h : a.same b = true) : a.isLiteral = b.isLiteral := by
  cases a <;> cases b <;> first | rfl | cases h

end TypeLedger.Ty
