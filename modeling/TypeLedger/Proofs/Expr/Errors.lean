import TypeLedger.Proofs.Expr.Reading

/-! The errors of a meaning come from single tokens: a fault is blamed on a name or a value, and what
is too long is a numeral. So a property of errors is proved for the tokens and holds of whatever is
wrong with a whole text. -/
namespace TypeLedger.Expr

variable {K : Located Token → Prop} {E : ReadError → Prop} {α β : Type} {x y : Except ReadError α}
  {xs : List α} {v : Arg} {args : List Arg} {atoms : List Atom} {l : Text} {n : Nat} {e : ReadError}

/-- The result is no error but one that has the property. -/
def ErrorsIn (E : ReadError → Prop) (x : Except ReadError α) : Prop := ∀ e, x = .error e → E e

theorem ErrorsIn.map (h : ErrorsIn E x) (f : α → β) : ErrorsIn E (f <$> x) :=
  fun e fails => h e (map_eq_error_iff.mp fails)

theorem ErrorsIn.ite {p : Prop} [Decidable p] (h : ErrorsIn E x) (k : ErrorsIn E y) :
    ErrorsIn E (if p then x else y) := by
  split
  · exact h
  · exact k

theorem errorsIn_ok {a : α} : ErrorsIn E (.ok a) := fun _ => nofun

theorem errorsIn_error (h : E e) : ErrorsIn E (.error e : Except ReadError α) := by
  rintro _ ⟨⟩
  exact h

theorem ErrorsIn.each {f : α → Except ReadError β} {g : List α → Except ReadError (List β)}
    (h : ∀ x ∈ xs, ErrorsIn E (f x)) (nil : g [] = .ok [])
    (cons : ∀ x xs, g (x :: xs) = do let y ← f x; let ys ← g xs; return y :: ys) :
    ErrorsIn E (g xs) := by
  intro e fails
  obtain ⟨x, mem, fails⟩ := exists_of_each_eq_error nil cons fails
  exact h x mem e fails

/-- The property is that of faults blamed on the name, and of whatever is wrong with the atom. -/
def Atom.ErrorsIn (E : ReadError → Prop) : Atom → Prop
  | .mk name args =>
    (∀ cause, E (.faulty ⟨cause, name.offset⟩)) ∧ Expr.ErrorsIn E (Atom.mk name args).meaning

def Arg.ErrorsIn (E : ReadError → Prop) (v : Arg) : Prop :=
  Expr.ErrorsIn E v.meaning ∧ Expr.ErrorsIn E v.literal

/-- A property that the errors have for which tokens of the kind `K` are to blame. -/
structure Blames (K : Located Token → Prop) (E : ReadError → Prop) : Prop where
  fault : ∀ tok cause, K tok → E (.faulty ⟨cause, tok.offset⟩)
  numeral : ∀ n l, K ⟨n, .int l⟩ → ErrorsIn E (intLiteral l)

theorem errorsIn_argMeanings (each : ∀ v ∈ args, v.ErrorsIn E) : ErrorsIn E (argMeanings args) :=
  .each (fun v mem => (each v mem).1) (by rw [argMeanings]) fun _ _ => by rw [argMeanings]

theorem errorsIn_literals (each : ∀ v ∈ args, v.ErrorsIn E) : ErrorsIn E (literals args) :=
  .each (fun v mem => (each v mem).2) (by rw [literals]) fun _ _ => by rw [literals]

theorem errorsIn_atomMeanings (each : ∀ a ∈ atoms, a.ErrorsIn E) :
    ErrorsIn E (atomMeanings atoms) := by
  refine .each (fun a mem => ?_) (by rw [atomMeanings]) fun _ _ => by rw [atomMeanings]
  obtain ⟨name, args⟩ := a
  exact (each _ mem).2

theorem Arg.errorsIn_union {first : Atom} {rest : List Atom}
    (each : ∀ a ∈ first :: rest, a.ErrorsIn E) : (Arg.union first rest).ErrorsIn E := by
  constructor
  · rw [Arg.meaning_union]
    exact (errorsIn_atomMeanings each).map _
  · obtain ⟨⟨_, _⟩, _⟩ := first
    rw [Arg.literal_name]
    split
    · exact errorsIn_ok
    · exact errorsIn_error ((each _ List.mem_cons_self).1 _)

namespace Blames

variable (blames : Blames K E)

include blames

theorem atom (name : K ⟨n, .name l⟩) (each : ∀ v ∈ args, v.ErrorsIn E) :
    (Atom.mk ⟨n, l⟩ args).ErrorsIn E := by
  have blamed (cause : Fault.Cause) : E (.faulty ⟨cause, n⟩) := blames.fault _ cause name
  refine ⟨blamed, ?_⟩
  rcases name_cases l with ⟨t, plain⟩ | rfl | rfl | rfl | free
  · rw [meaning_plain plain]
    exact errorsIn_ok.ite (errorsIn_error (blamed _))
  · rw [meaning_literal]
    exact (errorsIn_error (blamed _)).ite ((errorsIn_literals each).map _)
  · rw [meaning_union]
    exact (errorsIn_error (blamed _)).ite ((errorsIn_argMeanings each).map _)
  · rw [meaning_optional]
    exact ((errorsIn_argMeanings each).map _).ite (errorsIn_error (blamed _))
  · rw [meaning_named free]
    exact (errorsIn_argMeanings each).map _

theorem int (token : K ⟨n, .int l⟩) : (Arg.int ⟨n, l⟩).ErrorsIn E :=
  ⟨errorsIn_error (blames.fault _ _ token), blames.numeral n l token⟩

theorem string (token : K ⟨n, .string l⟩) : (Arg.string ⟨n, l⟩).ErrorsIn E := by
  refine ⟨errorsIn_error (blames.fault _ _ token), ?_⟩
  rw [Arg.literal, stringLiteral]
  split
  · exact errorsIn_ok
  · exact errorsIn_error (blames.fault _ _ token)

theorem meaning {u : Union} {toks : List (Located Token)} (derives : Derives (.union u) toks)
    (kept : ∀ tok ∈ toks, K tok) : ErrorsIn E u.meaning := by
  have all : Phrase.All (Atom.ErrorsIn E) (Arg.ErrorsIn E) (.union u) :=
    derives.all kept (fun _ _ _ => blames.atom) (fun _ _ => Arg.errorsIn_union)
      (fun _ _ => blames.int) (fun _ _ => blames.string)
  exact (Arg.errorsIn_union all).1

end Blames
end TypeLedger.Expr
