import TypeLedger.Proofs.Ty.Same

/-! Comparing types with a shortcut for types that are one object. Where objects are one is left
open, so that at each pair of equal types the shortcut may be taken or not; the answer is the same. -/
namespace TypeLedger.Ty

/-- What stands for itself, a class, a literal or a union. -/
inductive Kind
  | unknown
  | any
  | never
  | null
  | named
  | literal
  | union
  deriving DecidableEq, Repr

def kind : Ty → Kind
  | unknown => .unknown
  | any => .any
  | never => .never
  | null => .null
  | named .. => .named
  | literal .. => .literal
  | union _ => .union

/-- All types of the kind are equal. -/
def Kind.isPlain : Kind → Bool
  | unknown | any | never | null => true
  | named | literal | union => false

mutual

/-- An answer that the comparison of two types may give. Of objects nothing is known but that each is
equal to itself. -/
inductive Answers : Ty → Ty → Bool → Prop
  | identical {a : Ty} : Answers a a true
  | kinds {a b : Ty} : a.kind ≠ b.kind → Answers a b false
  | plain {a b : Ty} : a.kind = b.kind → a.kind.isPlain = true → Answers a b true
  | heads {n m : Text} {as bs : List Ty} : n ≠ m ∨ as.length ≠ bs.length →
      Answers (named n as) (named m bs) false
  | named {n : Text} {as bs : List Ty} {r : Bool} : as.length = bs.length → ArgsAnswer as bs r →
      Answers (named n as) (named n bs) r
  | literal {a b : Ty} {v w : LiteralValue} {r : Bool} : Answers a b r →
      Answers (literal a v) (literal b w) (r && v = w)
  | union {as bs : List Ty} {r s : Bool} : FindsAll bs as r → FindsAll as bs s →
      Answers (union as) (union bs) (r && s)

/-- An answer of the comparison of arguments, one by one. -/
inductive ArgsAnswer : List Ty → List Ty → Bool → Prop
  | nil : ArgsAnswer [] [] true
  | cons {a b : Ty} {as bs : List Ty} {r s : Bool} : Answers a b r → ArgsAnswer as bs s →
      ArgsAnswer (a :: as) (b :: bs) (r && s)

/-- An answer of the search for a type among candidates. -/
inductive Finds : List Ty → Ty → Bool → Prop
  | nil {t : Ty} : Finds [] t false
  | cons {c t : Ty} {cs : List Ty} {r s : Bool} : Answers c t r → Finds cs t s →
      Finds (c :: cs) t (r || s)

/-- An answer of the search for each of some types among candidates. -/
inductive FindsAll : List Ty → List Ty → Bool → Prop
  | nil {cs : List Ty} : FindsAll cs [] true
  | cons {t : Ty} {cs ts : List Ty} {r s : Bool} : Finds cs t r → FindsAll cs ts s →
      FindsAll cs (t :: ts) (r && s)

end

variable {a b t : Ty} {as bs cs ts : List Ty} {r : Bool}

theorem kind_eq_of_same (h : a.same b = true) : a.kind = b.kind := by
  cases a <;> cases b <;> first | rfl | cases h

theorem same_of_kind_ne (h : a.kind ≠ b.kind) : a.same b = false :=
  Bool.eq_false_iff.mpr (mt kind_eq_of_same h)

theorem eq_of_plain (same : a.kind = b.kind) (plain : a.kind.isPlain = true) : a = b := by
  cases a <;> cases plain <;> cases b <;> first | rfl | cases same

theorem same_named_of_heads {n m : Text} (h : n ≠ m ∨ as.length ≠ bs.length) :
    (named n as).same (named m bs) = false := by
  rw [Bool.eq_false_iff]
  intro same
  obtain ⟨names, args⟩ := same_named_iff.mp same
  exact h.elim (fun h => h names) (fun h => h args.length_eq)

theorem same_union_eq (as bs : List Ty) :
    same (union as) (union bs) = (as.all (contains bs) && bs.all (contains as)) := by
  rw [same_union]
  refine congrArg (as.all · && bs.all (contains as)) (funext fun a => ?_)
  exact congrArg bs.any (funext fun b => same_comm a b)

theorem Answers.eq_same (h : Answers a b r) : r = a.same b := by
  refine Answers.rec (motive_1 := fun a b r _ => r = a.same b)
    (motive_2 := fun as bs r _ => r = sameArgs as bs)
    (motive_3 := fun cs t r _ => r = contains cs t)
    (motive_4 := fun cs ts r _ => r = ts.all (contains cs))
    ?identical ?kinds ?plain ?heads ?named ?literal ?union ?noArgs ?args ?noCandidates ?candidates
    ?noTypes ?types h
  case identical => exact fun {a} => (same_refl a).symm
  case kinds => exact fun differ => (same_of_kind_ne differ).symm
  case plain =>
    intro a b same plain
    rw [eq_of_plain same plain, same_refl]
  case heads => exact fun differ => (same_named_of_heads differ).symm
  case named =>
    intro n as bs r _ _ args
    simp [same_named, args]
  case literal =>
    intro a b v w r _ base
    rw [base, same_literal]
  case union =>
    intro as bs r s _ _ left right
    rw [left, right, same_union_eq]
  case noArgs => rfl
  case args =>
    intro a b as bs r s _ _ first rest
    rw [first, rest, sameArgs]
  case noCandidates => exact fun {t} => rfl
  case candidates =>
    intro c t cs r s _ _ first rest
    rw [first, rest]
    rfl
  case noTypes => exact fun {cs} => rfl
  case types =>
    intro t cs ts r s _ _ first rest
    rw [first, rest]
    rfl

theorem finds_contains (h : ∀ c ∈ cs, Answers c t (c.same t)) : Finds cs t (contains cs t) := by
  induction cs with
  | nil => exact .nil
  | cons c cs ih =>
    obtain ⟨first, rest⟩ := List.forall_mem_cons.mp h
    exact .cons first (ih rest)

theorem findsAll_contains (h : ∀ t ∈ ts, ∀ c ∈ cs, Answers c t (c.same t)) :
    FindsAll cs ts (ts.all (contains cs)) := by
  induction ts with
  | nil => exact .nil
  | cons t ts ih =>
    obtain ⟨first, rest⟩ := List.forall_mem_cons.mp h
    exact .cons (finds_contains first) (ih rest)

theorem answers_union (left : ∀ a ∈ as, ∀ b ∈ bs, Answers b a (b.same a))
    (right : ∀ a ∈ as, ∀ b ∈ bs, Answers a b (a.same b)) :
    Answers (union as) (union bs) ((union as).same (union bs)) := by
  rw [same_union_eq]
  exact .union (findsAll_contains left) (findsAll_contains fun b hb a ha => right a ha b hb)

theorem argsAnswer_sameArgs (h : List.Forall₂ (fun a b => Answers a b (a.same b)) as bs) :
    ArgsAnswer as bs (sameArgs as bs) := by
  induction h with
  | nil => exact .nil
  | cons first _ ih =>
    rw [sameArgs]
    exact .cons first ih

theorem answers_named {n m : Text} (h : ∀ a ∈ as, ∀ b ∈ bs, Answers a b (a.same b)) :
    Answers (named n as) (named m bs) ((named n as).same (named m bs)) := by
  by_cases differ : n ≠ m ∨ as.length ≠ bs.length
  · rw [same_named_of_heads differ]
    exact .heads differ
  · obtain ⟨rfl, length⟩ : n = m ∧ as.length = bs.length := by simpa using differ
    have args : List.Forall₂ (fun a b => Answers a b (a.same b)) as bs := by
      refine List.forall₂_iff_zip.mpr ⟨length, fun {a b} mem => ?_⟩
      obtain ⟨ha, hb⟩ := List.of_mem_zip mem
      exact h a ha b hb
    have same : (named n as).same (named n bs) = sameArgs as bs := by
      rw [same_named, decide_eq_true rfl, Bool.true_and]
    rw [same]
    exact .named length (argsAnswer_sameArgs args)

/-- The comparison gives the answer of `same`, from either side. -/
def Compares (a b : Ty) : Prop := Answers a b (a.same b) ∧ Answers b a (b.same a)

theorem compares_of_kinds (h : a.kind = b.kind → Compares a b) : Compares a b := by
  by_cases kinds : a.kind = b.kind
  · exact h kinds
  · rw [Compares, same_of_kind_ne kinds, same_of_kind_ne (Ne.symm kinds)]
    exact ⟨.kinds kinds, .kinds (Ne.symm kinds)⟩

/-- Members are compared from the one union to the other and back, so that the induction needs both
sides. -/
theorem compares (a b : Ty) : Compares a b := by
  induction a generalizing b with
  | unknown | any | never | null =>
    refine compares_of_kinds fun kinds => ?_
    obtain rfl := eq_of_plain kinds rfl
    exact ⟨.plain rfl rfl, .plain rfl rfl⟩
  | named n as ih =>
    refine compares_of_kinds fun kinds => ?_
    cases b with
    | named m bs =>
      exact ⟨answers_named fun a ha b _ => (ih a ha b).1,
        answers_named fun b _ a ha => (ih a ha b).2⟩
    | _ => cases kinds
  | literal a v ih =>
    refine compares_of_kinds fun kinds => ?_
    cases b with
    | literal b w =>
      simp only [Compares, same_literal]
      exact ⟨.literal (ih b).1, .literal (ih b).2⟩
    | _ => cases kinds
  | union as ih =>
    refine compares_of_kinds fun kinds => ?_
    cases b with
    | union bs =>
      exact ⟨answers_union (fun a ha b _ => (ih a ha b).2) (fun a ha b _ => (ih a ha b).1),
        answers_union (fun b _ a ha => (ih a ha b).1) (fun b _ a ha => (ih a ha b).2)⟩
    | _ => cases kinds

/-- Whether and where the shortcut is taken changes no answer. -/
theorem answers_iff : Answers a b r ↔ r = a.same b := by
  constructor
  · exact Answers.eq_same
  · rintro rfl
    exact (compares a b).1

end TypeLedger.Ty
