import TypeLedger.Proofs.Expr.Reading

/-! Induction over the types that texts denote: a property that the values and the names of a text
give to types, and that combining keeps, holds of what is read. -/
namespace TypeLedger.Expr

variable {K : Token → Prop} {P : Ty → Prop} {v : Arg} {args : List Arg} {u : Union} {l source : Text}
  {n : Nat} {t : Ty} {ts : List Ty} {toks : List (Located Token)}

/-- A property of types that each form of expression hands on to the type that it denotes, where the
tokens have the property `K`. -/
structure Inherited (K : Token → Prop) (P : Ty → Prop) : Prop where
  unknown : P .unknown
  any : P .any
  never : P .never
  null : P .null
  int : ∀ n l t, K (.int l) → (Arg.int ⟨n, l⟩).DenotesValue t → P t
  string : ∀ n l t, K (.string l) → (Arg.string ⟨n, l⟩).DenotesValue t → P t
  bool : ∀ b, P (.ofValue (.bool b))
  named : ∀ l ts, K (.name l) → l ∉ reservedNames → (∀ t ∈ ts, P t) → P (.named l ts)
  combine : ∀ ts, (∀ t ∈ ts, P t) → P (.combine ts)

/-- The property holds of whatever the atom denotes. -/
def Atom.Gives (P : Ty → Prop) (a : Atom) : Prop := ∀ t, a.Denotes t → P t

/-- The property holds of whatever the argument denotes, as a type or as a value. -/
def Arg.Gives (P : Ty → Prop) (v : Arg) : Prop :=
  (∀ t, v.Denotes t → P t) ∧ ∀ t, v.DenotesValue t → P t

namespace Inherited

variable (inherited : Inherited K P)

include inherited

theorem atom (name : K (.name l)) (each : ∀ v ∈ args, v.Gives P) :
    (Atom.mk ⟨n, l⟩ args).Gives P := by
  intro t h
  cases h with
  | unknown => exact inherited.unknown
  | any => exact inherited.any
  | never | noReturn => exact inherited.never
  | null => exact inherited.null
  | literal value => exact (each _ List.mem_cons_self).2 _ value
  | literals values =>
    exact inherited.combine _ (forall_of_forall₂ values fun v mem => (each v mem).2)
  | union types =>
    exact inherited.combine _ (forall_of_forall₂ types fun v mem => (each v mem).1)
  | optional type =>
    have first := (each _ List.mem_cons_self).1 _ type
    exact inherited.combine _ (by simp [first, inherited.null])
  | named reserved types =>
    exact inherited.named _ _ name reserved (forall_of_forall₂ types fun v mem => (each v mem).1)

theorem union {first : Atom} {rest : List Atom} (each : ∀ a ∈ first :: rest, a.Gives P) :
    (Arg.union first rest).Gives P := by
  constructor
  · intro t h
    cases h with
    | atom type => exact each _ List.mem_cons_self _ type
    | union types => exact inherited.combine _ (forall_of_forall₂ types each)
  · intro t h
    cases h with
    | true | false => exact inherited.bool _
    | none => exact inherited.null

theorem atoms_of_derives (derives : Derives (.union u) toks) (kept : ∀ tok ∈ toks, K tok.item) :
    ∀ a ∈ u.first :: u.rest, a.Gives P :=
  derives.all kept (fun _ _ _ name => inherited.atom name) (fun _ _ => inherited.union)
    (fun n l spelt => ⟨fun _ => nofun, fun t => inherited.int n l t spelt⟩)
    (fun n l spelt => ⟨fun _ => nofun, fun t => inherited.string n l t spelt⟩)

theorem of_read (h : read source = .ok t)
    (kept : ∀ toks, Lexes 0 source toks [] → ∀ tok ∈ toks, K tok.item) : P t := by
  obtain ⟨toks, u, lexes, derives, denotes⟩ := denotes_of_read h
  exact (inherited.union (inherited.atoms_of_derives derives (kept toks lexes))).1 t denotes

end Inherited
end TypeLedger.Expr
