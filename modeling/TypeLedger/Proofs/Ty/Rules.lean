import TypeLedger.Proofs.Ty.Canonical

/-! Combining by its rules. The rules speak of all types of a list and of all those before a type in
it, where the loop over members knows no more than what it has kept so far. Types may have any shape,
but the base of a literal is no literal: of two literals the loop sees only the one that comes first. -/
namespace TypeLedger.Ty

variable {p : Ty → Bool} {t : Ty} {ts : List Ty}

/-- The types with the property that are the same as none of the types before them, which start with
`before`. -/
def firsts (p : Ty → Bool) (before : List Ty) : List Ty → List Ty
  | [] => []
  | t :: ts =>
    if p t && !contains before t then t :: firsts p (before ++ [t]) ts
    else firsts p (before ++ [t]) ts

/-- The types that are no literals, each once. -/
def others (ts : List Ty) : List Ty := firsts (!·.isLiteral) [] ts

/-- The literals, each once, with a base that is the same as none of the other types. -/
def literals (ts : List Ty) : List Ty :=
  firsts (fun t => t.isLiteral && !absorbed (ts.filter (!·.isLiteral)) t) [] ts

/-- What stays of the parts of the types. -/
def remaining (ts : List Ty) : List Ty := others (ts.flatMap parts) ++ literals (ts.flatMap parts)

/-- Some type is not `Never`, and none absorbs the others. -/
structure Mixed (ts : List Ty) : Prop where
  live : ∃ t ∈ ts, t ≠ never
  noUnknown : unknown ∉ ts
  noAny : any ∉ ts

/-- The rules: what a list of types combines to. -/
inductive Rules (ts : List Ty) : Ty → Prop
  | never : (∀ t ∈ ts, t = never) → Rules ts never
  | unknown : unknown ∈ ts → Rules ts unknown
  | any : unknown ∉ ts → any ∈ ts → Rules ts any
  | alone {t : Ty} : Mixed ts → remaining ts = [t] → Rules ts t
  | union : Mixed ts → (remaining ts).length ≠ 1 → Rules ts (union (remaining ts))

/-- Some rule applies. -/
theorem exists_rules (ts : List Ty) : ∃ t, Rules ts t := by
  by_cases none : ∀ t ∈ ts, t = never
  · exact ⟨_, .never none⟩
  by_cases top : unknown ∈ ts
  · exact ⟨_, .unknown top⟩
  by_cases mark : any ∈ ts
  · exact ⟨_, .any top mark⟩
  have mixed : Mixed ts := ⟨by simpa using none, top, mark⟩
  by_cases alone : (remaining ts).length = 1
  · obtain ⟨t, single⟩ := List.length_eq_one_iff.mp alone
    exact ⟨t, .alone mixed single⟩
  · exact ⟨_, .union mixed alone⟩

/-- To look back at types that were left out makes no difference: each is the same as one that was
kept. -/
theorem firsts_eq (hp : ∀ t u, t.same u = true → p t = p u) (before ts : List Ty) :
    firsts p before ts = distinct (ts.filter fun t => p t && !contains before t) := by
  induction ts generalizing before with
  | nil => rfl
  | cons t ts ih =>
    have later : (ts.filter fun u => p u && !contains (before ++ [t]) u) =
        (ts.filter fun u => p u && !contains before u).filter fun u => !u.same t := by
      rw [List.filter_filter]
      refine List.filter_congr fun u _ => ?_
      rw [contains_append, same_comm u t]
      cases p u <;> simp [contains, Bool.and_comm]
    rw [firsts, ih, later, List.filter_cons]
    by_cases kept : (p t && !contains before t) = true
    · rw [if_pos kept, if_pos kept, distinct_cons]
    · have all : ∀ u ∈ ts.filter (fun u => p u && !contains before u), (!u.same t) = true := by
        intro u mem
        by_contra same
        rw [Bool.not_eq_true, Bool.not_eq_false'] at same
        have wanted := (List.mem_filter.mp mem).2
        simp only [hp u t same, contains, same_congr_right same] at wanted
        exact kept wanted
      rw [if_neg kept, if_neg kept, List.filter_eq_self.mpr all]

/-- What the loop leaves is what stays by the rules. -/
theorem reduce_eq (bases : ∀ base v, literal base v ∈ ts → base.isLiteral = false) :
    reduce ts = others ts ++ literals ts := by
  rw [others, literals, firsts_eq not_isLiteral_of_same, firsts_eq (literal_stays_of_same _), reduce]
  refine congrArg₂ (distinct · ++ distinct ·) ?_ ?_
  · simp [contains]
  · refine List.filter_congr fun t mem => ?_
    cases t with
    | literal base v =>
      simp only [absorbed, contains_filter_not_literal, bases base v mem, Bool.not_false,
        Bool.true_and]
      simp [contains]
    | _ => rfl

theorem ofMembers_of_length_ne_one (h : ts.length ≠ 1) : ofMembers ts = union ts := by
  match ts with
  | [] | _ :: _ :: _ => rfl
  | [_] => exact absurd rfl h

theorem Mixed.combine_eq (h : Mixed ts) (several : ts.length ≠ 1)
    (bases : ∀ base v, literal base v ∈ ts.flatMap parts → base.isLiteral = false) :
    combine ts = ofMembers (remaining ts) := by
  rw [combine_of_live several h.live h.noUnknown h.noAny, members_eq (openUnions_live ts ▸ bases),
    openUnions_live, reduce_eq bases, remaining]

theorem Rules.combine_eq (h : Rules ts t) (several : ts.length ≠ 1)
    (bases : ∀ base v, literal base v ∈ ts.flatMap parts → base.isLiteral = false) :
    combine ts = t := by
  cases h with
  | never none => exact combine_of_never several none
  | unknown mem => exact combine_of_unknown several mem
  | any noUnknown mem => exact combine_of_any several noUnknown mem
  | alone mixed single => rw [mixed.combine_eq several bases, single, ofMembers]
  | union mixed many => rw [mixed.combine_eq several bases, ofMembers_of_length_ne_one many]

/-- Two types or more combine to what the rules give, and to nothing else. -/
theorem combination_meets_rules (ts : List Ty) (several : 2 ≤ ts.length)
    (bases : ∀ base v, literal base v ∈ ts.flatMap parts → base.isLiteral = false) (t : Ty) :
    combineSome ts = .ok t ↔ Rules ts t := by
  have notAlone : ts.length ≠ 1 := by omega
  have combined : combineSome ts = .ok (combine ts) := combineSome_of_ne_nil (by
    rintro rfl
    contradiction)
  rw [combined, Except.ok.injEq]
  constructor
  · rintro rfl
    obtain ⟨u, rules⟩ := exists_rules ts
    rw [rules.combine_eq notAlone bases]
    exact rules
  · exact fun rules => rules.combine_eq notAlone bases

/-- A class absorbs a literal before it, `Never` stays in a union, and what is repeated is left out. -/
theorem combination_meets_rules_absorbed :
    combineSome [ofValue (.int 3), .never, .union [.never, ofValue (.str "a"), .never],
        .named "int" [], ofValue (.str "a")] =
      .ok (.union [.never, .named "int" [], ofValue (.str "a")]) ∧
    Rules [ofValue (.int 3), .never, .union [.never, ofValue (.str "a"), .never],
        .named "int" [], ofValue (.str "a")]
      (.union [.never, .named "int" [], ofValue (.str "a")]) := by
  have combined : combineSome [ofValue (.int 3), .never,
      .union [.never, ofValue (.str "a"), .never], .named "int" [], ofValue (.str "a")] =
      .ok (.union [.never, .named "int" [], ofValue (.str "a")]) := rfl
  refine ⟨combined, (combination_meets_rules _ (by decide) ?_ _).mp combined⟩
  intro base v mem
  have literals : Ty.literal base v = ofValue (.int 3) ∨ Ty.literal base v = ofValue (.str "a") := by
    simpa [parts, ofValue] using mem
  rcases literals with e | e <;> cases e <;> rfl

end TypeLedger.Ty
