import TypeLedger.Proofs.Expr.Denotation

/-! An expression means the same wherever it stands. Its tokens are found again where its text is followed
by what goes on with none of them, and trees of the same tokens denote the same types. -/
namespace TypeLedger.Expr

variable {l t rest : Text} {tok : Token} {toks toks' : List (Located Token)} {n m : Nat}
  {a b : Atom} {atoms atoms' : List Atom} {args args' : List Arg} {escaped : Bool}

theorem nameTail_stop (stop : nameTail rest = []) (t : Text) :
    nameTail (t ++ rest) = nameTail t := by
  induction t with
  | nil => exact stop
  | cons c t ih =>
    have next : (t ++ rest).head?.any startsName = t.head?.any startsName := by
      cases t with
      | cons => rfl
      | nil =>
        cases rest with
        | nil => rfl
        | cons d rest =>
          rw [nameTail] at stop
          split at stop
          next => cases stop
          next other =>
            have apart := mt continuesName_of_startsName other
            simpa using apart
    rw [List.cons_append, nameTail, nameTail, ih, next]

theorem stringTail_append (h : stringTail escaped t = some l) (rest : Text) :
    stringTail escaped (t ++ rest) = some l := by
  induction t generalizing escaped l with
  | nil => cases h
  | cons c t ih =>
    rw [stringTail] at h
    rw [List.cons_append, stringTail]
    split at h
    next => cases h
    next onLine =>
      rw [if_neg onLine]
      split at h
      next closes =>
        rw [if_pos closes]
        exact h
      next other =>
        obtain ⟨tail, read, rfl⟩ := Option.map_eq_some_iff.mp h
        rw [if_neg other, ih read]
        rfl

/-- What a text starts with it starts with where more follows, if that goes on with no name. -/
theorem Token.Leads.append (h : tok.Leads t) (stop : nameTail rest = []) :
    tok.Leads (t ++ rest) := by
  cases tok with
  | name l =>
    obtain ⟨c, r, rfl, first, rfl⟩ := leads_name_iff.mp h
    exact leads_name_iff.mpr ⟨c, r ++ rest, rfl, first, by rw [nameTail_stop stop]⟩
  | int l =>
    have read := leads_int_iff.mp h
    obtain ⟨⟨s, digits, rfl, sign, some, all⟩, r, rfl⟩ := isInt_of_int? read
    rw [List.append_assoc, int?_append sign some all] at read
    have none : r.takeWhile Numeral.isDigit = [] := by simpa using read
    refine leads_int_iff.mpr ?_
    rw [List.append_assoc, List.append_assoc, int?_append sign some all]
    cases r with
    | nil => rw [List.nil_append, takeWhile_isDigit_stop stop, List.append_nil]
    | cons c r =>
      have other : ¬Numeral.isDigit c = true := by
        intro digit
        rw [List.takeWhile_cons_of_pos digit] at none
        cases none
      rw [List.cons_append, List.takeWhile_cons_of_neg other, List.append_nil]
  | string l =>
    obtain ⟨r, tail, rfl, read, rfl⟩ := leads_string_iff.mp h
    exact leads_string_iff.mpr ⟨r ++ rest, tail, rfl, stringTail_append read rest, rfl⟩
  | _ => exact ⟨h.1.trans (List.prefix_append _ _), trivial⟩

theorem Lexes.relocate (h : Lexes n t toks []) (stop : nameTail rest = []) (m : Nat) :
    ∃ toks', Lexes m (t ++ rest) toks' rest ∧
      toks'.map Located.item = toks.map Located.item := by
  generalize left : ([] : Text) = none at h
  induction h generalizing m with
  | done =>
    subst left
    exact ⟨[], .done, rfl⟩
  | blank blank _ ih =>
    obtain ⟨toks', lexes, same⟩ := ih (m + 1) left
    exact ⟨toks', .blank blank lexes, same⟩
  | @token _ tok t toks _ leads _ ih =>
    obtain ⟨toks', lexes, same⟩ := ih (m + tok.lexeme.length) left
    refine ⟨⟨m, tok⟩ :: toks', ?_, congrArg (tok :: ·) same⟩
    have again := leads.append stop
    rw [List.append_assoc] at again ⊢
    exact .token again lexes

/-- The atoms denote the same types, and the same values where they are alone in arguments of
`Literal`. -/
def Atom.Alike (a b : Atom) : Prop :=
  (∀ t, a.Denotes t ↔ b.Denotes t) ∧
    ∀ t, (Arg.union a []).DenotesValue t ↔ (Arg.union b []).DenotesValue t

/-- The arguments denote the same types and the same values. -/
def Arg.Alike (v w : Arg) : Prop :=
  (∀ t, v.Denotes t ↔ w.Denotes t) ∧ ∀ t, v.DenotesValue t ↔ w.DenotesValue t

/-- Phrases of one kind with parts that are alike one by one. -/
inductive Phrase.Alike : Phrase → Phrase → Prop
  | union {a b : Atom} {atoms atoms' : List Atom} :
      List.Forall₂ Atom.Alike (a :: atoms) (b :: atoms') →
      Phrase.Alike (.union ⟨a, atoms⟩) (.union ⟨b, atoms'⟩)
  | moreAtoms {atoms atoms' : List Atom} : List.Forall₂ Atom.Alike atoms atoms' →
      Phrase.Alike (.moreAtoms atoms) (.moreAtoms atoms')
  | atom {a b : Atom} : a.Alike b → Phrase.Alike (.atom a) (.atom b)
  | brackets {args args' : List Arg} : List.Forall₂ Arg.Alike args args' →
      Phrase.Alike (.brackets args) (.brackets args')
  | moreArgs {args args' : List Arg} : List.Forall₂ Arg.Alike args args' →
      Phrase.Alike (.moreArgs args) (.moreArgs args')
  | arg {v w : Arg} : v.Alike w → Phrase.Alike (.arg v) (.arg w)

theorem Atom.Alike.symm (h : a.Alike b) : b.Alike a :=
  ⟨fun t => (h.1 t).symm, fun t => (h.2 t).symm⟩

theorem Arg.Alike.symm {v w : Arg} (h : v.Alike w) : w.Alike v :=
  ⟨fun t => (h.1 t).symm, fun t => (h.2 t).symm⟩

theorem alikes_symm {α : Type} {S : α → α → Prop} {xs ys : List α}
    (symm : ∀ {x y}, S x y → S y x) (h : List.Forall₂ S xs ys) : List.Forall₂ S ys xs :=
  h.flip.imp fun _ _ => symm

theorem forall₂_of_alike {α β : Type} {S : α → α → Prop} {R : α → β → Prop} {xs ys : List α}
    {bs : List β} (each : ∀ x y b, S x y → R x b → R y b) (alike : List.Forall₂ S xs ys)
    (h : List.Forall₂ R xs bs) : List.Forall₂ R ys bs := by
  induction alike generalizing bs with
  | nil => exact h
  | cons first _ ih =>
    obtain ⟨b, bs, one, others, rfl⟩ := List.forall₂_cons_left_iff.mp h
    exact .cons (each _ _ _ first one) (ih others)

theorem args_denote_of_alike {ts : List Ty} (alike : List.Forall₂ Arg.Alike args args')
    (h : List.Forall₂ Arg.Denotes args ts) : List.Forall₂ Arg.Denotes args' ts :=
  forall₂_of_alike (fun _ _ t same => (same.1 t).mp) alike h

theorem values_denote_of_alike {ts : List Ty} (alike : List.Forall₂ Arg.Alike args args')
    (h : List.Forall₂ Arg.DenotesValue args ts) : List.Forall₂ Arg.DenotesValue args' ts :=
  forall₂_of_alike (fun _ _ t same => (same.2 t).mp) alike h

theorem atoms_denote_of_alike {ts : List Ty} (alike : List.Forall₂ Atom.Alike atoms atoms')
    (h : List.Forall₂ Atom.Denotes atoms ts) : List.Forall₂ Atom.Denotes atoms' ts :=
  forall₂_of_alike (fun _ _ t same => (same.1 t).mp) alike h

theorem Atom.denotes_of_alike {u : Ty} (alike : List.Forall₂ Arg.Alike args args')
    (h : (Atom.mk ⟨n, l⟩ args).Denotes u) : (Atom.mk ⟨m, l⟩ args').Denotes u := by
  cases h with
  | unknown => cases alike; exact .unknown
  | any => cases alike; exact .any
  | never => cases alike; exact .never
  | noReturn => cases alike; exact .noReturn
  | null => cases alike; exact .null
  | literal value =>
    cases alike with
    | cons first none =>
      cases none
      exact .literal ((first.2 _).mp value)
  | literals values =>
    have values := values_denote_of_alike alike values
    obtain ⟨v, _, _, rest, rfl⟩ := List.forall₂_cons_left_iff.mp alike
    obtain ⟨w, _, _, _, rfl⟩ := List.forall₂_cons_left_iff.mp rest
    exact .literals values
  | union types =>
    have types := args_denote_of_alike alike types
    obtain ⟨v, _, _, _, rfl⟩ := List.forall₂_cons_left_iff.mp alike
    exact .union types
  | optional type =>
    cases alike with
    | cons first none =>
      cases none
      exact .optional ((first.1 _).mp type)
  | named free types => exact .named free (args_denote_of_alike alike types)

theorem Atom.denotesValue_of_alike {u : Ty} (alike : List.Forall₂ Arg.Alike args args')
    (h : (Arg.union (.mk ⟨n, l⟩ args) []).DenotesValue u) :
    (Arg.union (.mk ⟨m, l⟩ args') []).DenotesValue u := by
  cases h with
  | true => cases alike; exact .true
  | false => cases alike; exact .false
  | none => cases alike; exact .none

theorem Atom.alike_mk (alike : List.Forall₂ Arg.Alike args args') :
    (Atom.mk ⟨n, l⟩ args).Alike (.mk ⟨m, l⟩ args') := by
  have back := alikes_symm Arg.Alike.symm alike
  exact ⟨fun _ => ⟨denotes_of_alike alike, denotes_of_alike back⟩,
    fun _ => ⟨denotesValue_of_alike alike, denotesValue_of_alike back⟩⟩

theorem Arg.denotes_of_alike {u : Ty} (alike : List.Forall₂ Atom.Alike (a :: atoms) (b :: atoms'))
    (h : (Arg.union a atoms).Denotes u) : (Arg.union b atoms').Denotes u := by
  cases h with
  | atom type =>
    cases alike with
    | cons first none =>
      cases none
      exact .atom ((first.1 _).mp type)
  | union types =>
    have types := atoms_denote_of_alike alike types
    obtain ⟨_, _, _, rest, same⟩ := List.forall₂_cons_left_iff.mp alike
    obtain ⟨rfl, rfl⟩ := List.cons.inj same
    obtain ⟨c, more, _, _, rfl⟩ := List.forall₂_cons_left_iff.mp rest
    exact .union types

/-- A value that is a name stands alone in its argument. -/
theorem Arg.denotesValue_of_alike {u : Ty}
    (alike : List.Forall₂ Atom.Alike (a :: atoms) (b :: atoms'))
    (h : (Arg.union a atoms).DenotesValue u) : (Arg.union b atoms').DenotesValue u := by
  obtain ⟨_, _, first, rest, same⟩ := List.forall₂_cons_left_iff.mp alike
  obtain ⟨rfl, rfl⟩ := List.cons.inj same
  have alone : atoms = [] := by cases h <;> rfl
  subst alone
  cases rest
  exact (first.2 u).mp h

theorem Arg.alike_union (alike : List.Forall₂ Atom.Alike (a :: atoms) (b :: atoms')) :
    (Arg.union a atoms).Alike (.union b atoms') := by
  have back := alikes_symm Atom.Alike.symm alike
  exact ⟨fun _ => ⟨denotes_of_alike alike, denotes_of_alike back⟩,
    fun _ => ⟨denotesValue_of_alike alike, denotesValue_of_alike back⟩⟩

theorem Arg.denotesValue_int {u : Ty} (h : (Arg.int ⟨n, l⟩).DenotesValue u) :
    (Arg.int ⟨m, l⟩).DenotesValue u := by
  cases h with
  | int digits short => exact .int digits short
  | plus digits short => exact .plus digits short
  | minus digits short => exact .minus digits short

theorem Arg.denotesValue_string {u : Ty} (h : (Arg.string ⟨n, l⟩).DenotesValue u) :
    (Arg.string ⟨m, l⟩).DenotesValue u := by
  cases h with
  | string read => exact .string read

theorem Arg.alike_int : (Arg.int ⟨n, l⟩).Alike (.int ⟨m, l⟩) :=
  ⟨fun _ => ⟨nofun, nofun⟩, fun _ => ⟨denotesValue_int, denotesValue_int⟩⟩

theorem Arg.alike_string : (Arg.string ⟨n, l⟩).Alike (.string ⟨m, l⟩) :=
  ⟨fun _ => ⟨nofun, nofun⟩, fun _ => ⟨denotesValue_string, denotesValue_string⟩⟩

/-- The tokens of a phrase at other places derive a phrase that is alike. -/
theorem Derives.relocate {phrase : Phrase} (h : Derives phrase toks)
    (same : toks'.map Located.item = toks.map Located.item) :
    ∃ phrase', Derives phrase' toks' ∧ phrase.Alike phrase' := by
  induction h generalizing toks' with
  | union _ _ first rest =>
    rw [List.map_append] at same
    obtain ⟨w, v, rfl, hw, hv⟩ := List.map_eq_append_iff.mp same
    match first hw, rest hv with
    | ⟨_, one, .atom alike⟩, ⟨_, others, .moreAtoms alikes⟩ =>
      exact ⟨_, .union one others, .union (.cons alike alikes)⟩
  | noAtoms =>
    cases List.map_eq_nil_iff.mp same
    exact ⟨_, .noAtoms, .moreAtoms .nil⟩
  | bar _ _ first rest =>
    rw [List.map_cons, List.map_append] at same
    obtain ⟨⟨k, _⟩, _, rfl, rfl, tail⟩ := List.map_eq_cons_iff.mp same
    obtain ⟨w, v, rfl, hw, hv⟩ := List.map_eq_append_iff.mp tail
    match first hw, rest hv with
    | ⟨_, one, .atom alike⟩, ⟨_, others, .moreAtoms alikes⟩ =>
      exact ⟨_, .bar (n := k) one others, .moreAtoms (.cons alike alikes)⟩
  | name =>
    obtain ⟨⟨k, _⟩, _, rfl, rfl, tail⟩ := List.map_eq_cons_iff.mp same
    cases List.map_eq_nil_iff.mp tail
    exact ⟨_, .name, .atom (Atom.alike_mk .nil)⟩
  | applied _ ih =>
    obtain ⟨⟨k, _⟩, _, rfl, rfl, tail⟩ := List.map_eq_cons_iff.mp same
    match ih tail with
    | ⟨_, inner, .brackets alikes⟩ => exact ⟨_, .applied inner, .atom (Atom.alike_mk alikes)⟩
  | brackets _ _ first rest =>
    rw [List.map_cons, List.map_append, List.map_append] at same
    obtain ⟨⟨k, _⟩, _, rfl, rfl, tail⟩ := List.map_eq_cons_iff.mp same
    obtain ⟨_, last, rfl, inner, closing⟩ := List.map_eq_append_iff.mp tail
    obtain ⟨w, v, rfl, hw, hv⟩ := List.map_eq_append_iff.mp inner
    obtain ⟨⟨j, _⟩, _, rfl, rfl, none⟩ := List.map_eq_cons_iff.mp closing
    cases List.map_eq_nil_iff.mp none
    match first hw, rest hv with
    | ⟨_, one, .arg alike⟩, ⟨_, others, .moreArgs alikes⟩ =>
      exact ⟨_, .brackets (n := k) (m := j) one others, .brackets (.cons alike alikes)⟩
  | noArgs =>
    cases List.map_eq_nil_iff.mp same
    exact ⟨_, .noArgs, .moreArgs .nil⟩
  | comma _ _ first rest =>
    rw [List.map_cons, List.map_append] at same
    obtain ⟨⟨k, _⟩, _, rfl, rfl, tail⟩ := List.map_eq_cons_iff.mp same
    obtain ⟨w, v, rfl, hw, hv⟩ := List.map_eq_append_iff.mp tail
    match first hw, rest hv with
    | ⟨_, one, .arg alike⟩, ⟨_, others, .moreArgs alikes⟩ =>
      exact ⟨_, .comma (n := k) one others, .moreArgs (.cons alike alikes)⟩
  | type _ ih =>
    match ih same with
    | ⟨_, inner, .union alikes⟩ => exact ⟨_, .type inner, .arg (Arg.alike_union alikes)⟩
  | int =>
    obtain ⟨⟨k, _⟩, _, rfl, rfl, tail⟩ := List.map_eq_cons_iff.mp same
    cases List.map_eq_nil_iff.mp tail
    exact ⟨_, .int, .arg Arg.alike_int⟩
  | string =>
    obtain ⟨⟨k, _⟩, _, rfl, rfl, tail⟩ := List.map_eq_cons_iff.mp same
    cases List.map_eq_nil_iff.mp tail
    exact ⟨_, .string, .arg Arg.alike_string⟩

end TypeLedger.Expr
