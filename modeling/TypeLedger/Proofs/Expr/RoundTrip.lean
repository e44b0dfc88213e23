import TypeLedger.Ty.Printer
import TypeLedger.Proofs.Expr.NormalForm
import TypeLedger.Proofs.Expr.Quoting
import TypeLedger.Proofs.Expr.Writing
import TypeLedger.Proofs.Json.StringRoundTrip
import TypeLedger.Proofs.Ty.Values

/-! Reading the text of a type in normal form. The split pairs of its string values are joined, which
may make members of a union the same; without split pairs the type itself is read. -/
namespace TypeLedger.Expr

open Ty (HasValue)

variable {t u : Ty} {ts us : List Ty} {n : Text}

/-- The type `u` has no split pairs in its values, and is `t` if `t` has none. -/
structure Rejoined (t u : Ty) : Prop where
  same : (∀ s, t.HasValue (.str s) → ¬s.HasSplitPair) → u = t
  joined : ∀ s, u.HasValue (.str s) → ¬s.HasSplitPair

theorem Rejoined.eq_iff (h : Rejoined t u) :
    u = t ↔ ∀ s, t.HasValue (.str s) → ¬s.HasSplitPair := by
  constructor
  · rintro rfl
    exact h.joined
  · exact h.same

theorem rejoined_self (h : ∀ s, ¬t.HasValue (.str s)) : Rejoined t t where
  same _ := rfl
  joined s hs := absurd hs (h s)

theorem eq_of_rejoined (h : List.Forall₂ Rejoined ts us)
    (apart : ∀ s, (∃ t ∈ ts, t.HasValue (.str s)) → ¬s.HasSplitPair) : us = ts := by
  induction h with
  | nil => rfl
  | cons first _ ih =>
    rw [first.same fun s hs => apart s ⟨_, List.mem_cons_self, hs⟩]
    exact congrArg _ (ih fun s ⟨t, mem, hs⟩ => apart s ⟨t, List.mem_cons_of_mem _ mem, hs⟩)

theorem joined_of_rejoined (h : List.Forall₂ Rejoined ts us) {s : Text}
    (hs : ∃ u ∈ us, u.HasValue (.str s)) : ¬s.HasSplitPair := by
  obtain ⟨u, mem, hs⟩ := hs
  exact forall_of_forall₂ h (fun _ _ _ rejoined => rejoined.joined s) u mem hs

theorem rejoined_named (h : List.Forall₂ Rejoined ts us) : Rejoined (.named n ts) (.named n us) where
  same apart := by
    rw [eq_of_rejoined h fun s hs => apart s (Ty.hasValue_named_iff.mpr hs)]
  joined s hs := joined_of_rejoined h (Ty.hasValue_named_iff.mp hs)

/-- A union is combined anew when it is read, and its members combine to it. -/
theorem rejoined_union {className : Text → Prop} (normal : (Ty.union ts).Normal className)
    (h : List.Forall₂ Rejoined ts us) : Rejoined (.union ts) (.combine us) where
  same apart := by
    rw [eq_of_rejoined h fun s hs => apart s (Ty.hasValue_union_iff.mpr hs)]
    exact normal.combine_members
  joined s hs := joined_of_rejoined h hs.of_combine

theorem rejoined_string (s : Text) : Rejoined (.ofValue (.str s)) (.ofValue (.str s.joinPairs)) where
  same apart := by
    rw [Text.joinPairs_eq_self (apart s .literal)]
  joined s' hs := by
    obtain ⟨⟩ := Ty.hasValue_literal_iff.mp hs
    exact s.not_hasSplitPair_joinPairs

theorem writes_int (i : Int) (short : (Numeral.ofNat i.natAbs).length ≤ Numeral.maxDigits) :
    Writes .arg Arg.DenotesValue (Numeral.ofInt i) (.ofValue (.int i)) := by
  intro n rest stop
  have digits (k : Nat) : ∀ d ∈ Numeral.ofNat k, Numeral.isDigit d = true :=
    fun _ => Numeral.isDigit_of_mem_ofNat
  cases i with
  | ofNat k =>
    have isInt : IsInt (Numeral.ofNat k) :=
      ⟨[], _, rfl, .inl rfl, Numeral.ofNat_ne_nil, digits k⟩
    have denotes := Arg.DenotesValue.int (n := n) (digits k) short
    rw [Numeral.value_ofNat] at denotes
    exact ⟨_, _, lexes_int isInt stop, .int, denotes⟩
  | negSucc k =>
    have isInt : IsInt (.scalar '-' :: Numeral.ofNat (k + 1)) :=
      ⟨[.scalar '-'], _, rfl, .inr (.inr rfl), Numeral.ofNat_ne_nil, digits (k + 1)⟩
    have denotes := Arg.DenotesValue.minus (n := n) (digits (k + 1)) short
    rw [Numeral.value_ofNat] at denotes
    exact ⟨_, _, lexes_int isInt stop, .int, denotes⟩

theorem writes_string (s : Text) :
    Writes .arg Arg.DenotesValue (Json.quote s) (.ofValue (.str s.joinPairs)) :=
  fun n rest _ => ⟨_, _, lexes_quote s n rest, .string, .string (Json.readString_quote s)⟩

theorem writes_bool (b : Bool) :
    Writes .arg Arg.DenotesValue (LiteralValue.bool b).print (.ofValue (.bool b)) := by
  intro n rest stop
  cases b with
  | true =>
    have isName : IsName "True" := .word rfl (by decide)
    exact ⟨_, _, lexes_name isName stop, .type (.union .name .noAtoms), .true⟩
  | false =>
    have isName : IsName "False" := .word rfl (by decide)
    exact ⟨_, _, lexes_name isName stop, .type (.union .name .noAtoms), .false⟩

/-- The value that is read for a value, and the literal that is read for its literal. -/
theorem exists_writes_value (v : LiteralValue)
    (short : ∀ i, v = .int i → (Numeral.ofNat i.natAbs).length ≤ Numeral.maxDigits) :
    ∃ u, Rejoined (.ofValue v) u ∧ Writes .arg Arg.DenotesValue v.print u := by
  cases v with
  | int i => exact ⟨_, rejoined_self (fun _ => nofun), writes_int i (short i rfl)⟩
  | str s => exact ⟨_, rejoined_string s, writes_string s⟩
  | bool b => exact ⟨_, rejoined_self (fun _ => nofun), writes_bool b⟩

/-- What is read for a type, wherever its text stands: an atom unless the type is a union. -/
def Rereads (t u : Ty) : Prop :=
  Rejoined t u ∧ Writes .union Union.Denotes t.print u ∧
    (t.isPart = true → Writes .atom Atom.Denotes t.print u)

theorem rereads_atom (rejoined : Rejoined t u) (h : Writes .atom Atom.Denotes t.print u) :
    Rereads t u :=
  ⟨rejoined, h.union, fun _ => h⟩

theorem rereads_name (h : IsName t.print) (none : ∀ s, ¬t.HasValue (.str s))
    (denotes : ∀ n, (Atom.mk ⟨n, t.print⟩ []).Denotes t) : Rereads t t :=
  rereads_atom (rejoined_self none) (writes_name h denotes)

theorem rereads_named (name : IsClassName n) (h : List.Forall₂ Rereads ts us) :
    Rereads (.named n ts) (.named n us) := by
  refine rereads_atom (rejoined_named (h.imp fun _ _ each => each.1)) ?_
  cases h with
  | nil => exact writes_name name.1 fun _ => .named name.2 .nil
  | @cons t u ts us first rest =>
    have args : List.Forall₂ (Writes .arg Arg.Denotes) (t.print :: ts.map Ty.print) (u :: us) :=
      .cons first.2.1.arg (List.forall₂_map_left_iff.mpr (rest.imp fun _ _ each => each.2.1.arg))
    have printed : (Ty.named n (t :: ts)).print = n ++ .scalar '[' ::
        ((", " : Text).intercalate (t.print :: ts.map Ty.print) ++ [.scalar ']']) := by
      rw [Ty.print, Ty.printAll_eq_map]
      rfl
    rw [printed]
    exact writes_applied name.1 args fun _ _ each => .named name.2 each

theorem rereads_literal {v : LiteralValue} (rejoined : Rejoined (.ofValue v) u)
    (h : Writes .arg Arg.DenotesValue v.print u) : Rereads (.ofValue v) u := by
  refine rereads_atom rejoined ?_
  have isName : IsName "Literal" := .word rfl (by decide)
  have printed : (Ty.ofValue v).print = ("Literal" : Text) ++ .scalar '[' ::
      ((", " : Text).intercalate [v.print] ++ [.scalar ']']) := by
    rw [List.intercalate_singleton]
    rfl
  rw [printed]
  apply writes_applied isName (.cons h .nil)
  intro n args each
  obtain ⟨v, _, value, none, rfl⟩ := List.forall₂_cons_right_iff.mp each
  cases none
  exact .literal value

theorem rereads_union {className : Text → Prop} (normal : (Ty.union ts).Normal className)
    (h : List.Forall₂ Rereads ts us) : Rereads (.union ts) (.combine us) := by
  refine ⟨rejoined_union normal (h.imp fun _ _ each => each.1), ?_, nofun⟩
  obtain ⟨several, _, reduced⟩ := normal.members
  have atoms : List.Forall₂ (Writes .atom Atom.Denotes) (ts.map Ty.print) us :=
    List.forall₂_map_left_iff.mpr
      (((List.forall₂_and_left _ _).mpr ⟨reduced.parts, h⟩).imp fun _ _ ⟨part, each⟩ => each.2.2 part)
  rw [Ty.print, Ty.printAll_eq_map]
  cases ts with
  | nil => cases several
  | cons => exact writes_union atoms

theorem exists_rereads (normal : t.Normal IsClassName)
    (short : ∀ i, t.HasValue (.int i) →
      (Numeral.ofNat i.natAbs).length ≤ Numeral.maxDigits) :
    ∃ u, Rereads t u := by
  induction t with
  | unknown => exact ⟨_, rereads_name (.word rfl (by decide)) (fun _ => nofun) fun _ => .unknown⟩
  | any => exact ⟨_, rereads_name (.word rfl (by decide)) (fun _ => nofun) fun _ => .any⟩
  | never => exact ⟨_, rereads_name (.word rfl (by decide)) (fun _ => nofun) fun _ => .never⟩
  | null => exact ⟨_, rereads_name (.word rfl (by decide)) (fun _ => nofun) fun _ => .null⟩
  | named n ts ih =>
    cases normal with
    | named name args =>
      obtain ⟨us, h⟩ := exists_forall₂ fun t mem =>
        ih t mem (args t mem) fun i hi => short i (.named mem hi)
      exact ⟨_, rereads_named name h⟩
  | literal base v =>
    cases normal with
    | literal =>
      obtain ⟨u, rejoined, h⟩ := exists_writes_value v fun i hi => short i (hi ▸ .literal)
      exact ⟨u, rereads_literal rejoined h⟩
  | union ms ih =>
    obtain ⟨_, members, _⟩ := normal.members
    obtain ⟨us, h⟩ := exists_forall₂ fun t mem =>
      ih t mem (members t mem) fun i hi => short i (.union mem hi)
    exact ⟨_, rereads_union normal h⟩

/-- The text of a type in normal form is read, and what is read is the type if and only if no half of
a surrogate pair stands before the other half in a string of it. -/
theorem read_print (normal : t.Normal IsClassName)
    (short : ∀ i, t.HasValue (.int i) →
      (Numeral.ofNat i.natAbs).length ≤ Numeral.maxDigits) :
    ∃ u, read t.print = .ok u ∧ (u = t ↔ ∀ s, t.HasValue (.str s) → ¬s.HasSplitPair) := by
  obtain ⟨u, rejoined, writes, _⟩ := exists_rereads normal short
  exact ⟨u, writes.read, rejoined.eq_iff⟩

theorem read_print_nested :
    let s : Text := [.scalar '"', .scalar '\\', .scalar '😀', .high 0]
    let t : Ty := .union [.named "a.B" [.union [.null, .ofValue (.str s)]], .ofValue (.int (-7))]
    read t.print = .ok t := by
  intro s t
  have inner : (Ty.union [.null, .ofValue (.str s)]).Normal IsClassName := by
    refine .union (by decide) ?_ ⟨by decide, by decide, by decide, ?_⟩
    · simpa using ⟨.null, .literal _⟩
    · simp [Ty.ofValue, LiteralValue.cls, Ty.same]
  have normal : t.Normal IsClassName := by
    refine .union (by decide) ?_ ⟨by decide, by decide, by decide, ?_⟩
    · have name : IsClassName "a.B" := ⟨isName_cons_iff.mpr ⟨rfl, by decide⟩, by decide⟩
      simpa using ⟨.named name (List.forall_mem_singleton.mpr inner), .literal _⟩
    · simp [Ty.ofValue, LiteralValue.cls, Ty.same, Ty.sameArgs]
  have values (v : LiteralValue) (hv : t.HasValue v) : v = .str s ∨ v = .int (-7) := by
    have none : ¬Ty.null.HasValue v := by rintro ⟨⟩
    simpa [t, Ty.hasValue_union_iff, Ty.hasValue_named_iff, Ty.ofValue,
      Ty.hasValue_literal_iff, none] using hv
  have short : ∀ i, t.HasValue (.int i) →
      (Numeral.ofNat i.natAbs).length ≤ Numeral.maxDigits := by
    intro i hi
    obtain rfl : i = -7 := by simpa using values _ hi
    decide
  have apart : ¬s.HasSplitPair := by
    have none : ¬Text.HasSplitPair [] := by simp [Text.HasSplitPair]
    simp [s, Text.hasSplitPair_cons_iff, none]
  obtain ⟨u, found, same⟩ := read_print normal short
  rw [found, same.mpr]
  intro s' hs
  rwa [show s' = s by simpa using values _ hs]

end TypeLedger.Expr
