import TypeLedger.Expr.Meaning
import TypeLedger.Proofs.Expr.Lexing
import TypeLedger.Proofs.Expr.Grammar
import TypeLedger.Proofs.Except

/-! The types that trees denote, as a judgment with one rule for each form. It says nothing of
faults; the reader finds a type for a tree when the judgment gives one, and then it finds that type. -/
namespace TypeLedger.Expr

/-- The names that stand for no class. -/
def reservedNames : List Text :=
  ["Unknown", "Any", "Never", "NoReturn", "None", "Literal", "Union", "Optional"]

/-- The type of a value in `Literal`. -/
inductive Arg.DenotesValue : Arg → Ty → Prop
  | int {n : Nat} {digits : Text} : (∀ d ∈ digits, Numeral.isDigit d = true) →
      digits.length ≤ Numeral.maxDigits →
      Arg.DenotesValue (.int ⟨n, digits⟩) (.ofValue (.int (Numeral.value digits)))
  | plus {n : Nat} {digits : Text} : (∀ d ∈ digits, Numeral.isDigit d = true) →
      digits.length ≤ Numeral.maxDigits →
      Arg.DenotesValue (.int ⟨n, .scalar '+' :: digits⟩) (.ofValue (.int (Numeral.value digits)))
  | minus {n : Nat} {digits : Text} : (∀ d ∈ digits, Numeral.isDigit d = true) →
      digits.length ≤ Numeral.maxDigits →
      Arg.DenotesValue (.int ⟨n, .scalar '-' :: digits⟩)
        (.ofValue (.int (-Numeral.value digits)))
  | string {n : Nat} {l t : Text} : Json.readString l = .ok t →
      Arg.DenotesValue (.string ⟨n, l⟩) (.ofValue (.str t))
  | true {n : Nat} : Arg.DenotesValue (.union (.mk ⟨n, "True"⟩ []) []) (.ofValue (.bool true))
  | false {n : Nat} : Arg.DenotesValue (.union (.mk ⟨n, "False"⟩ []) []) (.ofValue (.bool false))
  | none {n : Nat} : Arg.DenotesValue (.union (.mk ⟨n, "None"⟩ []) []) .null

mutual

inductive Atom.Denotes : Atom → Ty → Prop
  | unknown {n : Nat} : Atom.Denotes (.mk ⟨n, "Unknown"⟩ []) .unknown
  | any {n : Nat} : Atom.Denotes (.mk ⟨n, "Any"⟩ []) .any
  | never {n : Nat} : Atom.Denotes (.mk ⟨n, "Never"⟩ []) .never
  | noReturn {n : Nat} : Atom.Denotes (.mk ⟨n, "NoReturn"⟩ []) .never
  | null {n : Nat} : Atom.Denotes (.mk ⟨n, "None"⟩ []) .null
  | literal {n : Nat} {v : Arg} {t : Ty} : v.DenotesValue t →
      Atom.Denotes (.mk ⟨n, "Literal"⟩ [v]) t
  | literals {n : Nat} {v w : Arg} {vs : List Arg} {ts : List Ty} :
      List.Forall₂ Arg.DenotesValue (v :: w :: vs) ts →
      Atom.Denotes (.mk ⟨n, "Literal"⟩ (v :: w :: vs)) (.combine ts)
  | union {n : Nat} {a : Arg} {args : List Arg} {ts : List Ty} :
      List.Forall₂ Arg.Denotes (a :: args) ts →
      Atom.Denotes (.mk ⟨n, "Union"⟩ (a :: args)) (.combine ts)
  | optional {n : Nat} {a : Arg} {t : Ty} : a.Denotes t →
      Atom.Denotes (.mk ⟨n, "Optional"⟩ [a]) (.combine [t, .null])
  | named {n : Nat} {l : Text} {args : List Arg} {ts : List Ty} : l ∉ reservedNames →
      List.Forall₂ Arg.Denotes args ts → Atom.Denotes (.mk ⟨n, l⟩ args) (.named l ts)

inductive Arg.Denotes : Arg → Ty → Prop
  | atom {a : Atom} {t : Ty} : a.Denotes t → Arg.Denotes (.union a []) t
  | union {a b : Atom} {atoms : List Atom} {ts : List Ty} :
      List.Forall₂ Atom.Denotes (a :: b :: atoms) ts →
      Arg.Denotes (.union a (b :: atoms)) (.combine ts)

end

def Union.Denotes (u : Union) (t : Ty) : Prop := u.toArg.Denotes t

/-- The lexeme of a token is of the token's kind. -/
def Token.Spelt : Token → Prop
  | .name l => IsName l
  | .int l => IsInt l
  | .string l => IsString l
  | _ => True

theorem Token.Leads.spelt {tok : Token} {t : Text} (h : tok.Leads t) : tok.Spelt := by
  obtain ⟨_, leads⟩ := h
  cases tok with
  | name | int | string => exact leads.1
  | _ => trivial

theorem Lexes.spelt {n : Nat} {t rest : Text} {toks : List (Located Token)}
    (h : Lexes n t toks rest) : ∀ tok ∈ toks, tok.item.Spelt := by
  induction h with
  | done => simp
  | blank _ _ ih => exact ih
  | token leads _ ih => exact List.forall_mem_cons.mpr ⟨leads.spelt, ih⟩

/-- A property of the atoms and one of the arguments of a phrase. -/
def Phrase.All (P : Atom → Prop) (Q : Arg → Prop) : Phrase → Prop
  | union u => ∀ a ∈ u.first :: u.rest, P a
  | moreAtoms atoms => ∀ a ∈ atoms, P a
  | atom a => P a
  | brackets args => ∀ a ∈ args, Q a
  | moreArgs args => ∀ a ∈ args, Q a
  | arg a => Q a

/-- Induction over the trees of tokens that have a property. -/
theorem Derives.all {K : Located Token → Prop} {P : Atom → Prop} {Q : Arg → Prop} {phrase : Phrase}
    {toks : List (Located Token)} (h : Derives phrase toks) (kept : ∀ tok ∈ toks, K tok)
    (mk : ∀ n l args, K ⟨n, .name l⟩ → (∀ a ∈ args, Q a) → P (.mk ⟨n, l⟩ args))
    (union : ∀ first rest, (∀ a ∈ first :: rest, P a) → Q (.union first rest))
    (int : ∀ n l, K ⟨n, .int l⟩ → Q (.int ⟨n, l⟩))
    (string : ∀ n l, K ⟨n, .string l⟩ → Q (.string ⟨n, l⟩)) : phrase.All P Q := by
  induction h with
  | union _ _ first rest | bar _ _ first rest | brackets _ _ first rest | comma _ _ first rest =>
    simp only [List.mem_cons, List.mem_append, or_imp, forall_and] at kept
    exact List.forall_mem_cons.mpr ⟨first (by tauto), rest (by tauto)⟩
  | noAtoms | noArgs => exact List.forall_mem_nil _
  | name => exact mk _ _ _ (kept _ List.mem_cons_self) (List.forall_mem_nil _)
  | applied _ ih =>
    obtain ⟨name, rest⟩ := List.forall_mem_cons.mp kept
    exact mk _ _ _ name (ih rest)
  | type _ ih => exact union _ _ (ih kept)
  | int => exact int _ _ (kept _ List.mem_cons_self)
  | string => exact string _ _ (kept _ List.mem_cons_self)

variable {a : Atom} {v : Arg} {atoms : List Atom} {args : List Arg} {t : Ty} {ts : List Ty}
  {l digits : Text} {n : Nat}

def Atom.Agrees (a : Atom) : Prop := ∀ t, a.meaning = .ok t ↔ a.Denotes t

def Arg.Agrees (v : Arg) : Prop :=
  (∀ t, v.meaning = .ok t ↔ v.Denotes t) ∧ ∀ t, v.literal = .ok t ↔ v.DenotesValue t

theorem combine_singleton (t : Ty) : Ty.combine [t] = t := rfl

theorem atomMeanings_eq_ok_iff (h : ∀ a ∈ atoms, a.Agrees) :
    atomMeanings atoms = .ok ts ↔ List.Forall₂ Atom.Denotes atoms ts :=
  each_eq_ok_iff (by rw [atomMeanings]) (fun _ _ => by rw [atomMeanings]) h

theorem argMeanings_eq_ok_iff (h : ∀ v ∈ args, v.Agrees) :
    argMeanings args = .ok ts ↔ List.Forall₂ Arg.Denotes args ts :=
  each_eq_ok_iff (by rw [argMeanings]) (fun _ _ => by rw [argMeanings]) fun v hv => (h v hv).1

theorem literals_eq_ok_iff (h : ∀ v ∈ args, v.Agrees) :
    literals args = .ok ts ↔ List.Forall₂ Arg.DenotesValue args ts :=
  each_eq_ok_iff (by rw [literals]) (fun _ _ => by rw [literals]) fun v hv => (h v hv).2

theorem meaning_plain (h : plainType? l = some t) : (Atom.mk ⟨n, l⟩ args).meaning =
    if args.isEmpty then .ok t else .error (.faulty ⟨.takesNoArguments l, n⟩) := by
  have literal : l ≠ "Literal" := by
    rintro rfl
    cases h
  simp [Atom.meaning, literal, h]

theorem meaning_literal : (Atom.mk ⟨n, "Literal"⟩ args).meaning =
    if args.isEmpty then .error (.faulty ⟨.literalWithoutValues, n⟩)
    else Ty.combine <$> literals args := by
  rw [Atom.meaning, if_pos rfl]

theorem meaning_union : (Atom.mk ⟨n, "Union"⟩ args).meaning =
    if args.isEmpty then .error (.faulty ⟨.unionWithoutArguments, n⟩)
    else Ty.combine <$> argMeanings args := by
  have literal : ("Union" : Text) ≠ "Literal" := by decide
  rw [Atom.meaning, if_neg literal]
  rfl

theorem meaning_optional : (Atom.mk ⟨n, "Optional"⟩ args).meaning =
    if args.length = 1 then (fun ts => Ty.combine (ts ++ [.null])) <$> argMeanings args
    else .error (.faulty ⟨.optionalArity, n⟩) := by
  have literal : ("Optional" : Text) ≠ "Literal" := by decide
  rw [Atom.meaning, if_neg literal]
  rfl

theorem meaning_named (h : l ∉ reservedNames) :
    (Atom.mk ⟨n, l⟩ args).meaning = Ty.named l <$> argMeanings args := by
  simp only [reservedNames, List.mem_cons, List.not_mem_nil, or_false, not_or] at h
  simp [Atom.meaning, plainType?, h]

/-- A name stands for a type, is one of the three that take arguments of their own kind, or is free. -/
theorem name_cases (l : Text) : (∃ t, plainType? l = some t) ∨ l = "Literal" ∨ l = "Union" ∨
    l = "Optional" ∨ l ∉ reservedNames := by
  by_cases reserved : l ∈ reservedNames
  · simp only [reservedNames, List.mem_cons, List.not_mem_nil, or_false] at reserved
    rcases reserved with rfl | rfl | rfl | rfl | rfl | h
    · exact .inl ⟨_, rfl⟩
    · exact .inl ⟨_, rfl⟩
    · exact .inl ⟨_, rfl⟩
    · exact .inl ⟨_, rfl⟩
    · exact .inl ⟨_, rfl⟩
    · exact .inr (h.imp_right (.imp_right .inl))
  · exact .inr (.inr (.inr (.inr reserved)))

theorem denotes_plain (plain : plainType? l = some u)
    (denotes : (Atom.mk ⟨n, l⟩ []).Denotes u) (found : (Atom.mk ⟨n, l⟩ args).meaning = .ok t) :
    (Atom.mk ⟨n, l⟩ args).Denotes t := by
  rw [meaning_plain plain] at found
  cases args with
  | nil =>
    cases found
    exact denotes
  | cons => cases found

/-- What is found for an atom by the reader is what it denotes. -/
theorem Atom.denotes_of_meaning (h : ∀ v ∈ args, v.Agrees)
    (found : (Atom.mk ⟨n, l⟩ args).meaning = .ok t) : (Atom.mk ⟨n, l⟩ args).Denotes t := by
  by_cases reserved : l ∈ reservedNames
  · simp only [reservedNames, List.mem_cons, List.not_mem_nil, or_false] at reserved
    rcases reserved with rfl | rfl | rfl | rfl | rfl | rfl | rfl | rfl
    · exact denotes_plain rfl .unknown found
    · exact denotes_plain rfl .any found
    · exact denotes_plain rfl .never found
    · exact denotes_plain rfl .noReturn found
    · exact denotes_plain rfl .null found
    · rw [meaning_literal] at found
      match args with
      | [] => cases found
      | v :: vs =>
        obtain ⟨ts, values, rfl⟩ := map_eq_ok_iff.mp found
        rw [literals_eq_ok_iff h] at values
        match vs with
        | [] =>
          obtain ⟨t, _, value, none, rfl⟩ := List.forall₂_cons_left_iff.mp values
          cases none
          exact .literal value
        | w :: vs => exact .literals values
    · rw [meaning_union] at found
      match args with
      | [] => cases found
      | v :: vs =>
        obtain ⟨ts, types, rfl⟩ := map_eq_ok_iff.mp found
        exact .union ((argMeanings_eq_ok_iff h).mp types)
    · rw [meaning_optional] at found
      match args with
      | [v] =>
        obtain ⟨ts, types, rfl⟩ := map_eq_ok_iff.mp found
        rw [argMeanings_eq_ok_iff h] at types
        obtain ⟨t, _, type, none, rfl⟩ := List.forall₂_cons_left_iff.mp types
        cases none
        exact .optional type
      | [] | _ :: _ :: _ => cases found
  · rw [meaning_named reserved] at found
    obtain ⟨ts, types, rfl⟩ := map_eq_ok_iff.mp found
    exact .named reserved ((argMeanings_eq_ok_iff h).mp types)

theorem Atom.meaning_of_denotes (h : ∀ v ∈ args, v.Agrees)
    (denotes : (Atom.mk ⟨n, l⟩ args).Denotes t) : (Atom.mk ⟨n, l⟩ args).meaning = .ok t := by
  cases denotes with
  | unknown | any | never | noReturn | null =>
    rw [meaning_plain rfl]
    rfl
  | literal value =>
    have values := (literals_eq_ok_iff h).mpr (.cons value .nil)
    rw [meaning_literal, values]
    rfl
  | literals values =>
    rw [meaning_literal, (literals_eq_ok_iff h).mpr values]
    rfl
  | union types =>
    rw [meaning_union, (argMeanings_eq_ok_iff h).mpr types]
    rfl
  | optional type =>
    have types := (argMeanings_eq_ok_iff h).mpr (.cons type .nil)
    rw [meaning_optional, types]
    rfl
  | named reserved types =>
    rw [meaning_named reserved, (argMeanings_eq_ok_iff h).mpr types]
    rfl

theorem Arg.meaning_union {first : Atom} {rest : List Atom} :
    (Arg.union first rest).meaning = Ty.combine <$> atomMeanings (first :: rest) := by
  rw [Arg.meaning, atomMeanings]
  cases first.meaning with
  | error => rfl
  | ok => cases atomMeanings rest <;> rfl

theorem Arg.denotes_of_meaning {first : Atom} {rest : List Atom}
    (h : ∀ a ∈ first :: rest, a.Agrees) (found : (Arg.union first rest).meaning = .ok t) :
    (Arg.union first rest).Denotes t := by
  rw [Arg.meaning_union] at found
  obtain ⟨ts, types, rfl⟩ := map_eq_ok_iff.mp found
  rw [atomMeanings_eq_ok_iff h] at types
  obtain ⟨u, us, type, more, rfl⟩ := List.forall₂_cons_left_iff.mp types
  cases more with
  | nil => exact .atom type
  | cons next more => exact .union types

theorem Arg.meaning_of_denotes {first : Atom} {rest : List Atom}
    (h : ∀ a ∈ first :: rest, a.Agrees) (denotes : (Arg.union first rest).Denotes t) :
    (Arg.union first rest).meaning = .ok t := by
  cases denotes with
  | atom type =>
    rw [Arg.meaning_union, (atomMeanings_eq_ok_iff h).mpr (.cons type .nil)]
    rfl
  | union types =>
    rw [Arg.meaning_union, (atomMeanings_eq_ok_iff h).mpr types]
    rfl

theorem Arg.denotesValue_of_plainValue? (h : plainValue? l = some t) :
    (Arg.union (.mk ⟨n, l⟩ []) []).DenotesValue t := by
  unfold plainValue? at h
  split at h
  next name =>
    cases h
    exact name ▸ .true
  split at h
  next name =>
    cases h
    exact name ▸ .false
  split at h
  next name =>
    cases h
    exact name ▸ .none
  cases h

theorem Arg.literal_name {rest : List Atom} : (Arg.union (.mk ⟨n, l⟩ args) rest).literal =
    match plainValue? l, args, rest with
    | some t, [], [] => .ok t
    | _, _, _ => .error (.faulty ⟨.notALiteralValue, n⟩) :=
  rfl

theorem Arg.literal_name_iff {first : Atom} {rest : List Atom} :
    (Arg.union first rest).literal = .ok t ↔ (Arg.union first rest).DenotesValue t := by
  obtain ⟨⟨n, l⟩, args⟩ := first
  constructor
  · intro found
    rw [Arg.literal_name] at found
    split at found
    next value =>
      cases found
      exact Arg.denotesValue_of_plainValue? value
    next => cases found
  · intro denotes
    cases denotes with
    | true | false | none => rfl

theorem Arg.agrees_union {first : Atom} {rest : List Atom} (h : ∀ a ∈ first :: rest, a.Agrees) :
    (Arg.union first rest).Agrees := by
  constructor
  · intro t
    exact ⟨Arg.denotes_of_meaning h, Arg.meaning_of_denotes h⟩
  · intro t
    exact Arg.literal_name_iff

/-- The literal of a numeral whose sign is told apart from its digits. -/
theorem intLiteral_eq {s : Text} (sign : IsSign s) (hd : ∀ d ∈ digits, Numeral.isDigit d = true) :
    intLiteral (s ++ digits) =
      if digits.length ≤ Numeral.maxDigits then
        .ok (.ofValue (.int (if s = [.scalar '-'] then -Numeral.value digits
          else Numeral.value digits)))
      else .error (.oversized ⟨Numeral.maxDigits, digits.length⟩) := by
  have other : ∀ d ∈ digits.head?, d ≠ .scalar '-' ∧ d ≠ .scalar '+' := by
    intro d h
    have digit := hd d (List.mem_of_mem_head? h)
    constructor <;> (rintro rfl; cases digit)
  have unsigned : digits.dropWhile (fun c => c = .scalar '-' || c = .scalar '+') = digits := by
    cases digits with
    | nil => rfl
    | cons d ds =>
      obtain ⟨minus, plus⟩ := other d rfl
      rw [List.dropWhile_cons_of_neg (by simp [minus, plus])]
  have dropped :
      (s ++ digits).dropWhile (fun c => c = .scalar '-' || c = .scalar '+') = digits := by
    rcases sign with rfl | rfl | rfl <;> simpa using unsigned
  have negative : (s ++ digits).head? = some (.scalar '-') ↔ s = [.scalar '-'] := by
    rcases sign with rfl | rfl | rfl
    · simpa using fun h => (other _ h).1 rfl
    · simp
    · simp
  simp only [intLiteral, Numeral.read, dropped, negative]
  by_cases short : digits.length ≤ Numeral.maxDigits
  · rw [if_pos short, if_pos short]
  · rw [if_neg short, if_neg short]

theorem Arg.agrees_int (h : IsInt l) : (Arg.int ⟨n, l⟩).Agrees := by
  refine ⟨fun t => ⟨nofun, nofun⟩, fun t => ?_⟩
  constructor
  · intro found
    obtain ⟨s, digits, rfl, sign, _, hd⟩ := h
    rw [Arg.literal, intLiteral_eq sign hd] at found
    split at found
    next short =>
      cases found
      rcases sign with rfl | rfl | rfl
      · exact .int hd short
      · exact .plus hd short
      · exact .minus hd short
    next => cases found
  · intro denotes
    cases denotes with
    | int hd short => exact (intLiteral_eq (.inl rfl) hd).trans (if_pos short)
    | plus hd short => exact (intLiteral_eq (.inr (.inl rfl)) hd).trans (if_pos short)
    | minus hd short => exact (intLiteral_eq (.inr (.inr rfl)) hd).trans (if_pos short)

theorem Arg.agrees_string : (Arg.string ⟨n, l⟩).Agrees := by
  refine ⟨fun t => ⟨nofun, nofun⟩, fun t => ?_⟩
  constructor
  · intro found
    rw [Arg.literal, stringLiteral] at found
    split at found
    next read => cases found; exact .string read
    next => cases found
  · intro denotes
    cases denotes with
    | string read => simp [Arg.literal, stringLiteral, read]

/-- A tree of a text means what it denotes. -/
theorem Derives.meaning_eq_ok_iff {u : Union} {toks : List (Located Token)}
    (h : Derives (.union u) toks) (spelt : ∀ tok ∈ toks, tok.item.Spelt) :
    u.meaning = .ok t ↔ u.Denotes t := by
  have agrees : Phrase.All Atom.Agrees Arg.Agrees (.union u) :=
    h.all spelt
      (fun _ _ _ _ args _ => ⟨Atom.denotes_of_meaning args, Atom.meaning_of_denotes args⟩)
      (fun _ _ => Arg.agrees_union) (fun _ _ => Arg.agrees_int) (fun _ _ _ => Arg.agrees_string)
  exact (Arg.agrees_union agrees).1 t

end TypeLedger.Expr
