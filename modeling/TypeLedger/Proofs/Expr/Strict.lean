import TypeLedger.Proofs.Expr.Reading
import TypeLedger.Proofs.Json.Decoding
import TypeLedger.Ty.OfJson

/-! Reading a type expression with parts that may refuse what they are given: a combination of no types,
and a value that has no literal type. They are never given such, so that the reader has no refusals
but its own. -/
namespace TypeLedger.Expr

variable {source l : Text} {a : Atom} {v : Arg} {args : List Arg} {atoms : List Atom} {k : Nat}

/-- Why a strict reading stops. -/
inductive Refusal
  | expr (e : ReadError)
  | combination (e : Ty.CombineError)
  | value (e : Ty.UnsupportedLiteral)

def strictCombine (ts : List Ty) : Except Refusal Ty := (Ty.combineSome ts).mapError .combination

/-- The type of an argument of `Literal`, where a string may be read as any value. -/
def Arg.strictLiteral : Arg → Except Refusal Ty
  | .string lexeme =>
    match Json.read (some Numeral.maxDigits) lexeme.item with
    | .ok v => (Ty.ofJson v).mapError .value
    | .error (.malformed fault) =>
      .error (.expr (.faulty ⟨.badString lexeme.item fault, lexeme.offset⟩))
    | .error (.oversized numeral) => .error (.expr (.oversized numeral))
  | v => v.literal.mapError .expr

def strictLiterals : List Arg → Except Refusal (List Ty)
  | [] => .ok []
  | a :: rest => do
    let t ← a.strictLiteral
    let ts ← strictLiterals rest
    return t :: ts

mutual

def Atom.strictMeaning (atom : Atom) : Except Refusal Ty :=
  match atom with
  | .mk name args =>
    if name.item = "Literal" then
      if args.isEmpty then .error (.expr (.faulty ⟨.literalWithoutValues, name.offset⟩))
      else strictLiterals args >>= strictCombine
    else if let some t := plainType? name.item then
      if args.isEmpty then .ok t
      else .error (.expr (.faulty ⟨.takesNoArguments name.item, name.offset⟩))
    else if name.item = "Union" then
      if args.isEmpty then .error (.expr (.faulty ⟨.unionWithoutArguments, name.offset⟩))
      else strictArgs args >>= strictCombine
    else if name.item = "Optional" then
      if args.length = 1 then strictArgs args >>= fun ts => strictCombine (ts ++ [.null])
      else .error (.expr (.faulty ⟨.optionalArity, name.offset⟩))
    else Ty.named name.item <$> strictArgs args
termination_by structural atom

def Arg.strictMeaning (arg : Arg) : Except Refusal Ty :=
  match arg with
  | .union first rest => do
    let t ← first.strictMeaning
    let ts ← strictAtoms rest
    strictCombine (t :: ts)
  | .int lexeme | .string lexeme =>
    .error (.expr (.faulty ⟨.valueOutsideLiteral lexeme.item, lexeme.offset⟩))
termination_by structural arg

def strictAtoms (atoms : List Atom) : Except Refusal (List Ty) :=
  match atoms with
  | [] => .ok []
  | a :: rest => do
    let t ← a.strictMeaning
    let ts ← strictAtoms rest
    return t :: ts
termination_by structural atoms

def strictArgs (args : List Arg) : Except Refusal (List Ty) :=
  match args with
  | [] => .ok []
  | a :: rest => do
    let t ← a.strictMeaning
    let ts ← strictArgs rest
    return t :: ts
termination_by structural args

end

/-- The type that a text writes, read strictly. -/
def strictRead (source : Text) : Except Refusal Ty :=
  match parse source with
  | .ok u => u.toArg.strictMeaning
  | .error fault => .error (.expr (.faulty fault))

theorem strictCombine_of_ne_nil {ts : List Ty} (some : ts ≠ []) :
    strictCombine ts = .ok (.combine ts) := by
  cases ts with
  | nil => contradiction
  | cons => rfl

/-- The strict reading of the atom has no refusals of its own. -/
def Atom.Strict (a : Atom) : Prop := a.strictMeaning = a.meaning.mapError .expr

def Arg.Strict (v : Arg) : Prop :=
  v.strictMeaning = v.meaning.mapError .expr ∧ v.strictLiteral = v.literal.mapError .expr

theorem strictLiterals_eq (h : ∀ v ∈ args, v.Strict) :
    strictLiterals args = (literals args).mapError .expr :=
  each_eq_mapError (by rw [literals]) (by rw [strictLiterals]) (fun _ _ => by rw [literals])
    (fun _ _ => by rw [strictLiterals]) fun v mem => (h v mem).2

theorem strictArgs_eq (h : ∀ v ∈ args, v.Strict) :
    strictArgs args = (argMeanings args).mapError .expr :=
  each_eq_mapError (by rw [argMeanings]) (by rw [strictArgs]) (fun _ _ => by rw [argMeanings])
    (fun _ _ => by rw [strictArgs]) fun v mem => (h v mem).1

theorem strictAtoms_eq (h : ∀ a ∈ atoms, a.Strict) :
    strictAtoms atoms = (atomMeanings atoms).mapError .expr :=
  each_eq_mapError (by rw [atomMeanings]) (by rw [strictAtoms]) (fun _ _ => by rw [atomMeanings])
    (fun _ _ => by rw [strictAtoms]) h

/-- What is combined strictly is combined, where the types are some. -/
theorem bind_strictCombine {x : Except ReadError (List Ty)} {f : List Ty → List Ty}
    (some : ∀ ts, x = .ok ts → f ts ≠ []) :
    (x.mapError Refusal.expr >>= fun ts => strictCombine (f ts)) =
      ((fun ts => Ty.combine (f ts)) <$> x).mapError .expr := by
  cases x with
  | error => rfl
  | ok ts => exact strictCombine_of_ne_nil (some ts rfl)

theorem strictMeaning_plain {t : Ty} (h : plainType? l = some t) :
    (Atom.mk ⟨k, l⟩ args).strictMeaning =
      if args.isEmpty then .ok t else .error (.expr (.faulty ⟨.takesNoArguments l, k⟩)) := by
  have literal : l ≠ "Literal" := by
    rintro rfl
    cases h
  simp [Atom.strictMeaning, literal, h]

theorem strictMeaning_literal : (Atom.mk ⟨k, "Literal"⟩ args).strictMeaning =
    if args.isEmpty then .error (.expr (.faulty ⟨.literalWithoutValues, k⟩))
    else strictLiterals args >>= strictCombine := by
  rw [Atom.strictMeaning, if_pos rfl]

theorem strictMeaning_union : (Atom.mk ⟨k, "Union"⟩ args).strictMeaning =
    if args.isEmpty then .error (.expr (.faulty ⟨.unionWithoutArguments, k⟩))
    else strictArgs args >>= strictCombine := by
  have literal : ("Union" : Text) ≠ "Literal" := by decide
  rw [Atom.strictMeaning, if_neg literal]
  rfl

theorem strictMeaning_optional : (Atom.mk ⟨k, "Optional"⟩ args).strictMeaning =
    if args.length = 1 then strictArgs args >>= fun ts => strictCombine (ts ++ [.null])
    else .error (.expr (.faulty ⟨.optionalArity, k⟩)) := by
  have literal : ("Optional" : Text) ≠ "Literal" := by decide
  rw [Atom.strictMeaning, if_neg literal]
  rfl

theorem strictMeaning_named (h : l ∉ reservedNames) :
    (Atom.mk ⟨k, l⟩ args).strictMeaning = Ty.named l <$> strictArgs args := by
  simp only [reservedNames, List.mem_cons, List.not_mem_nil, or_false, not_or] at h
  simp [Atom.strictMeaning, plainType?, h]

theorem strict_plain {t : Ty} (plain : plainType? l = some t) : (Atom.mk ⟨k, l⟩ args).Strict := by
  rw [Atom.Strict, strictMeaning_plain plain, meaning_plain plain]
  split <;> rfl

theorem literals_ne_nil {ts : List Ty} (some : ¬args.isEmpty = true) (h : literals args = .ok ts) :
    ts ≠ [] := by
  cases args with
  | nil => contradiction
  | cons => exact ne_nil_of_each_eq_ok (by rw [literals]) h

theorem argMeanings_ne_nil {ts : List Ty} (some : ¬args.isEmpty = true)
    (h : argMeanings args = .ok ts) : ts ≠ [] := by
  cases args with
  | nil => contradiction
  | cons => exact ne_nil_of_each_eq_ok (by rw [argMeanings]) h

theorem Atom.strict_mk (h : ∀ v ∈ args, v.Strict) : (Atom.mk ⟨k, l⟩ args).Strict := by
  rcases name_cases l with ⟨t, plain⟩ | rfl | rfl | rfl | free
  · exact strict_plain plain
  · rw [Atom.Strict, strictMeaning_literal, meaning_literal, strictLiterals_eq h]
    split
    next => rfl
    next some => exact bind_strictCombine fun _ => literals_ne_nil some
  · rw [Atom.Strict, strictMeaning_union, meaning_union, strictArgs_eq h]
    split
    next => rfl
    next some => exact bind_strictCombine fun _ => argMeanings_ne_nil some
  · rw [Atom.Strict, strictMeaning_optional, meaning_optional, strictArgs_eq h]
    split
    next => exact bind_strictCombine fun _ _ => List.append_ne_nil_of_right_ne_nil _ (by simp)
    next => rfl
  · rw [Atom.Strict, strictMeaning_named free, meaning_named free, strictArgs_eq h]
    cases argMeanings args <;> rfl

theorem Arg.strict_union {first : Atom} {rest : List Atom} (h : ∀ a ∈ first :: rest, a.Strict) :
    (Arg.union first rest).Strict := by
  obtain ⟨one, others⟩ := List.forall_mem_cons.mp h
  constructor
  · rw [Arg.strictMeaning, Arg.meaning, one, strictAtoms_eq others]
    cases first.meaning with
    | error => rfl
    | ok => cases atomMeanings rest <;> rfl
  · rfl

theorem Arg.strict_int : (Arg.int ⟨k, l⟩).Strict := ⟨by rw [Arg.strictMeaning]; rfl, rfl⟩

/-- A string is never read as a value of another kind. -/
theorem Arg.strict_string (spelt : IsString l) : (Arg.string ⟨k, l⟩).Strict := by
  refine ⟨by rw [Arg.strictMeaning]; rfl, ?_⟩
  obtain ⟨body, rfl, _⟩ := spelt
  rw [Arg.strictLiteral, Arg.literal, stringLiteral, Json.readString]
  rcases Json.read_quoted (body ++ [.scalar '"']) with ⟨t, found⟩ | ⟨fault, fails⟩
  · rw [found, found]
    rfl
  · rw [fails, fails]
    rfl

theorem strictRead_eq (source : Text) : strictRead source = (read source).mapError .expr := by
  rw [strictRead, read]
  cases parsed : parse source with
  | error => rfl
  | ok u =>
    obtain ⟨toks, lexes, derives⟩ := parse_eq_ok_iff.mp parsed
    have all : Phrase.All Atom.Strict Arg.Strict (.union u) :=
      derives.all lexes.spelt (fun _ _ _ _ => Atom.strict_mk) (fun _ _ => Arg.strict_union)
        (fun _ _ _ => Arg.strict_int) (fun _ _ => Arg.strict_string)
    exact (Arg.strict_union all).1

end TypeLedger.Expr
