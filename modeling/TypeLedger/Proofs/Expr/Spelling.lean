import TypeLedger.Ty.Printer
import TypeLedger.Proofs.Expr.NormalForm
import TypeLedger.Proofs.Expr.Relocation
import TypeLedger.Proofs.Expr.Writing
import TypeLedger.Proofs.Ty.Algebra

/-! Spellings of one type. Bars put the atoms of all parts into one combination and brackets combine what
was combined before; members come out the same, in the same order. -/
namespace TypeLedger.Expr

/-- A name with arguments in brackets. -/
def applied (name : Text) (args : List Text) : Text :=
  .concat [name, "[", .joinWith ", " args, "]"]

/-- Parts with bars between them. -/
def barred (parts : List Text) : Text := .joinWith " | " parts

/-- The text writes one argument and nothing else. -/
def IsArgument (text : Text) : Prop :=
  ∃ toks v, Lexes 0 text toks [] ∧ Derives (.arg v) toks

variable {a l w : Text} {v : Arg} {args : List Arg} {texts ws : List Text} {t : Ty} {ts : List Ty}
  {n : Nat}

/-- A text that is read writes a union wherever it stands, with types in normal form for its atoms. -/
theorem writes_of_read (h : read a = .ok t) : ∃ ts, Writes .union Union.DenotesEach a ts ∧
    Ty.combine ts = t ∧ ts ≠ [] ∧ ∀ t ∈ ts, t.Normal IsClassName := by
  obtain ⟨toks, u, lexes, derives, denotes⟩ := denotes_of_read h
  obtain ⟨ts, each, same⟩ := Union.denotes_iff.mp denotes
  refine ⟨ts, fun n rest stop => ?_, same, ?_, ?_⟩
  · obtain ⟨toks', lexes', again⟩ := lexes.relocate stop n
    match derives.relocate again with
    | ⟨_, derives', .union alikes⟩ =>
      exact ⟨toks', _, lexes', derives', atoms_denote_of_alike alikes each⟩
  · rintro rfl
    cases each
  · exact forall_of_forall₂ each (inherited_normal.atoms_of_derives derives lexes.spelt)

theorem exists_groups (h : List.Forall₂ (fun a t => read a = .ok t) texts ts) :
    ∃ groups, List.Forall₂ (Writes .union Union.DenotesEach) texts groups ∧
      groups.map Ty.combine = ts ∧ ∀ g ∈ groups, g ≠ [] ∧ ∀ t ∈ g, t.Normal IsClassName := by
  induction h with
  | nil => exact ⟨[], .nil, rfl, List.forall_mem_nil _⟩
  | cons first _ ih =>
    obtain ⟨group, writes, same, normal⟩ := writes_of_read first
    obtain ⟨groups, others, sames, normals⟩ := ih
    exact ⟨group :: groups, .cons writes others, by rw [List.map_cons, same, sames],
      List.forall_mem_cons.mpr ⟨normal, normals⟩⟩

theorem writes_args (h : List.Forall₂ (fun a t => read a = .ok t) texts ts) :
    List.Forall₂ (Writes .arg Arg.Denotes) texts ts := by
  refine h.imp fun a t found => ?_
  obtain ⟨ts, writes, rfl, _⟩ := writes_of_read found
  exact writes.of_each.arg

/-- The types of texts with bars between them combine as they are combined one by one. -/
theorem read_barred (some : texts ≠ []) (h : List.Forall₂ (fun a t => read a = .ok t) texts ts) :
    read (barred texts) = .ok (.combine ts) := by
  obtain ⟨groups, writes, rfl, normal⟩ := exists_groups h
  obtain ⟨w, ws, rfl⟩ := List.exists_cons_of_ne_nil some
  have flat : Ty.combine (groups.map Ty.combine) = .combine groups.flatten :=
    Ty.combine_map_combine [] normal
  rw [flat]
  exact (writes_barred writes).of_each.read

/-- A name with arguments is read when the name makes a type of what its arguments denote. -/
theorem read_applied {D : Arg → Ty → Prop} (h : IsName l) (some : texts ≠ [])
    (args : List.Forall₂ (Writes .arg D) texts ts)
    (denotes : ∀ n args, List.Forall₂ D args ts → (Atom.mk ⟨n, l⟩ args).Denotes t) :
    Writes .atom Atom.Denotes (applied l texts) t := by
  obtain ⟨w, ws, rfl⟩ := List.exists_cons_of_ne_nil some
  exact writes_applied h args denotes

theorem read_none : read "None" = .ok .null :=
  (writes_name (.word rfl (by decide)) fun _ => .null).union.read

theorem isName_literal : IsName "Literal" := .word rfl (by decide)

theorem denotes_literal (some : ts ≠ []) (h : List.Forall₂ Arg.DenotesValue args ts) :
    (Atom.mk ⟨n, "Literal"⟩ args).Denotes (.combine ts) := by
  cases h with
  | nil => contradiction
  | cons first rest =>
    cases rest with
    | nil => exact .literal first
    | cons next others => exact .literals (.cons first (.cons next others))

theorem denotesValue_of_literal (name : l = "Literal") (h : (Atom.mk ⟨n, l⟩ [v]).Denotes t) :
    v.DenotesValue t := by
  cases h with
  | literal value => exact value
  | union | optional => exact absurd name (by decide)
  | named free => exact absurd (by rw [name]; decide) free

/-- An argument of which `Literal` makes a type writes a value wherever it stands. -/
theorem writes_value (isArgument : IsArgument w) (h : read (applied "Literal" [w]) = .ok t) :
    Writes .arg Arg.DenotesValue w t := by
  obtain ⟨toks, v, lexes, derives⟩ := isArgument
  have moved : Writes .arg (fun v' v => v'.Alike v) w v := by
    intro n rest stop
    obtain ⟨toks', lexes', again⟩ := lexes.relocate stop n
    match derives.relocate again with
    | ⟨_, derives', .arg alike⟩ => exact ⟨toks', _, lexes', derives', alike.symm⟩
  have whole : Writes .atom (fun a _ => ∃ n v', a = .mk ⟨n, "Literal"⟩ [v'] ∧ v'.Alike v)
      (applied "Literal" [w]) () := by
    refine writes_applied isName_literal (.cons moved .nil) fun n args each => ?_
    obtain ⟨v', _, alike, none, rfl⟩ := List.forall₂_cons_right_iff.mp each
    cases none
    exact ⟨n, v', rfl, alike⟩
  obtain ⟨toks', _, lexes', derives', n, v', rfl, alike⟩ := whole 0 [] rfl
  rw [List.append_nil] at lexes'
  -- The tree that was read is the one that is written, since a text has one tree.
  have parsed := parse_eq_ok_iff.mpr ⟨toks', lexes', derives'.union_alone⟩
  obtain ⟨toks'', u, lexes'', derives'', denotes⟩ := denotes_of_read h
  cases parsed.symm.trans (parse_eq_ok_iff.mpr ⟨toks'', lexes'', derives''⟩)
  have value : v'.DenotesValue t := by
    cases denotes with
    | atom type => exact denotesValue_of_literal rfl type
  intro k rest stop
  obtain ⟨toks, v'', lexes, derives, alike'⟩ := moved k rest stop
  exact ⟨toks, v'', lexes, derives, (alike'.2 t).mpr ((alike.2 t).mp value)⟩

theorem read_literals (some : ws ≠ []) (h : List.Forall₂ (Writes .arg Arg.DenotesValue) ws ts) :
    read (applied "Literal" ws) = .ok (.combine ts) ∧
      read (barred (ws.map fun w => applied "Literal" [w])) = .ok (.combine ts) := by
  have each : List.Forall₂ (Writes .atom Atom.Denotes)
      (ws.map fun w => applied "Literal" [w]) ts := by
    refine List.forall₂_map_left_iff.mpr (h.imp fun w t writes => ?_)
    exact read_applied isName_literal (List.cons_ne_nil _ _) (.cons writes .nil)
      fun _ _ => denotes_literal (List.cons_ne_nil _ _)
  obtain ⟨w, ws, rfl⟩ := List.exists_cons_of_ne_nil some
  have some' : ts ≠ [] := by
    rintro rfl
    cases h
  exact ⟨(read_applied isName_literal some h fun _ _ => denotes_literal some').union.read,
    (writes_union each).read⟩

/-- Spellings of a type with brackets and with bars are read alike. Both give the combination of what
the parts are read as on their own. -/
theorem spellings_agree :
    (∀ texts ts, texts ≠ [] → List.Forall₂ (fun a t => read a = .ok t) texts ts →
      read (applied "Union" texts) = .ok (.combine ts) ∧
        read (barred texts) = .ok (.combine ts)) ∧
    (∀ a t, read a = .ok t →
      read (applied "Optional" [a]) = .ok (.combine [t, .null]) ∧
        read (barred [a, "None"]) = .ok (.combine [t, .null])) ∧
    ∀ ws ts, ws ≠ [] → (∀ w ∈ ws, IsArgument w) →
      List.Forall₂ (fun w t => read (applied "Literal" [w]) = .ok t) ws ts →
      read (applied "Literal" ws) = .ok (.combine ts) ∧
        read (barred (ws.map fun w => applied "Literal" [w])) = .ok (.combine ts) := by
  refine ⟨fun texts ts some h => ?_, fun a t h => ?_, fun ws ts some isArgument h => ?_⟩
  · refine ⟨?_, read_barred some h⟩
    have isName : IsName "Union" := .word rfl (by decide)
    refine (read_applied isName some (writes_args h) fun n args types => ?_).union.read
    cases types with
    | nil => cases h; contradiction
    | cons first rest => exact .union (.cons first rest)
  · refine ⟨?_, read_barred (List.cons_ne_nil _ _) (.cons h (.cons read_none .nil))⟩
    have isName : IsName "Optional" := .word rfl (by decide)
    refine (read_applied isName (List.cons_ne_nil _ _) (writes_args (.cons h .nil))
      fun n args types => ?_).union.read
    obtain ⟨v, _, type, none, rfl⟩ := List.forall₂_cons_right_iff.mp types
    cases none
    exact .optional type
  · have values := (List.forall₂_and_left _ _).mpr ⟨isArgument, h⟩
    exact read_literals some (values.imp fun w t ⟨isArgument, found⟩ =>
      writes_value isArgument found)

/-- A class absorbs a literal of another part, and a type without values is left out. -/
theorem spellings_agree_nested :
    let texts : List Text := ["Literal[3] | Never", "dict[str, None | bool] | int", "Literal[\"a\"]"]
    (∃ t, read (applied "Union" texts) = .ok t ∧ read (barred texts) = .ok t ∧
      t.print = "dict[str, None | bool] | int | Literal[\"a\"]") ∧
    (∃ t, read "Optional[int|None]" = .ok t ∧ read "int|None | None" = .ok t) ∧
    ∃ t, read "Literal[+007, True]" = .ok t ∧ read "Literal[+007] | Literal[True]" = .ok t := by
  intro texts
  obtain ⟨brackets, optional, literals⟩ := spellings_agree
  have first : (read "Literal[3] | Never").toOption.map Ty.print = some "Literal[3]" := by
    decide +kernel
  have second : (read "dict[str, None | bool] | int").toOption.map Ty.print =
      some "dict[str, None | bool] | int" := by decide +kernel
  have third : (read "Literal[\"a\"]").toOption.map Ty.print = some "Literal[\"a\"]" := by
    decide +kernel
  have printed : (read (applied "Union" texts)).toOption.map Ty.print =
      some "dict[str, None | bool] | int | Literal[\"a\"]" := by decide +kernel
  obtain ⟨t₁, read₁, _⟩ := exists_of_toOption first
  obtain ⟨t₂, read₂, _⟩ := exists_of_toOption second
  obtain ⟨t₃, read₃, _⟩ := exists_of_toOption third
  obtain ⟨union, bars⟩ := brackets texts [t₁, t₂, t₃] (List.cons_ne_nil _ _)
    (.cons read₁ (.cons read₂ (.cons read₃ .nil)))
  obtain ⟨t, found, print⟩ := exists_of_toOption printed
  obtain rfl := Except.ok.inj (union.symm.trans found)
  have inner : (read "int|None").toOption.map Ty.print = some "int | None" := by decide +kernel
  obtain ⟨u, readInner, _⟩ := exists_of_toOption inner
  have plus : (read "Literal[+007]").toOption.map Ty.print = some "Literal[7]" := by decide +kernel
  have truth : (read "Literal[True]").toOption.map Ty.print = some "Literal[True]" := by
    decide +kernel
  obtain ⟨v₁, value₁, _⟩ := exists_of_toOption plus
  obtain ⟨v₂, value₂, _⟩ := exists_of_toOption truth
  have isInt : IsInt "+007" := ⟨[.scalar '+'], "007", rfl, .inr (.inl rfl), by decide, by decide⟩
  have isName : IsName "True" := .word rfl (by decide)
  have nothing : nameTail [] = [] := rfl
  have int : IsArgument "+007" := ⟨_, _, by simpa using lexes_int (n := 0) isInt nothing, .int⟩
  have name : IsArgument "True" := ⟨_, _, by simpa using lexes_name (n := 0) isName nothing,
    .type Derives.name.union_alone⟩
  refine ⟨⟨_, union, bars, print⟩, ⟨_, optional _ u readInner⟩,
    ⟨_, literals ["+007", "True"] [v₁, v₂] (List.cons_ne_nil _ _) ?_
      (.cons value₁ (.cons value₂ .nil))⟩⟩
  exact List.forall_mem_cons.mpr ⟨int, List.forall_mem_singleton.mpr name⟩

end TypeLedger.Expr
