import TypeLedger.Proofs.Expr.Reading
import TypeLedger.Proofs.Text.Scalar

/-! Texts that write a phrase wherever they stand, unless what follows goes on with a name. Such texts
are put together as the phrases are, with the separators of the printer between them. -/
namespace TypeLedger.Expr

def Union.atoms (u : Union) : List Atom := u.first :: u.rest

/-- The atoms of the union denote the types one by one. -/
def Union.DenotesEach (u : Union) (ts : List Ty) : Prop := List.Forall₂ Atom.Denotes u.atoms ts

variable {n : Nat} {l t w mid rest : Text} {ws : List Text} {toks more : List (Located Token)}
  {ts : List Ty} {u : Union} {atoms atoms' : List Atom} {groups : List (List Ty)}

/-- What lexes after a part of a text lexes after it in the whole. -/
theorem Lexes.resume (h : Lexes n t toks mid) : ∃ m, ∀ more rest,
    Lexes m mid more rest → Lexes n t (toks ++ more) rest := by
  induction h with
  | done => exact ⟨_, fun _ _ => id⟩
  | blank blank _ ih =>
    obtain ⟨m, after⟩ := ih
    exact ⟨m, fun more rest h => .blank blank (after more rest h)⟩
  | token leads _ ih =>
    obtain ⟨m, after⟩ := ih
    exact ⟨m, fun more rest h => .token leads (after more rest h)⟩

theorem lexes_name (h : IsName l) (stop : nameTail rest = []) :
    Lexes n (l ++ rest) [⟨n, .name l⟩] rest := by
  obtain ⟨c, tail, rfl, first, fixed⟩ := h.starts
  have longest : c :: tail = c :: nameTail (tail ++ rest) := by
    rw [nameTail_append fixed, stop, List.append_nil]
  have leads : (Token.name (c :: tail)).Leads (c :: tail ++ rest) :=
    leads_name_iff.mpr ⟨c, tail ++ rest, rfl, first, longest⟩
  exact .token leads .done

theorem lexes_int (h : IsInt l) (stop : nameTail rest = []) :
    Lexes n (l ++ rest) [⟨n, .int l⟩] rest := by
  obtain ⟨s, digits, rfl, sign, some, all⟩ := h
  have longest : int? (s ++ digits ++ rest) = .some (s ++ digits) := by
    rw [List.append_assoc, int?_append sign some all, takeWhile_isDigit_stop stop, List.append_nil]
  have leads : (Token.int (s ++ digits)).Leads (s ++ digits ++ rest) := leads_int_iff.mpr longest
  exact .token leads .done

theorem lexes_openBracket : Lexes n (.scalar '[' :: rest) [⟨n, .openBracket⟩] rest :=
  @Lexes.token n .openBracket rest [] rest ⟨List.prefix_append _ _, trivial⟩ .done

theorem lexes_closeBracket : Lexes n (.scalar ']' :: rest) [⟨n, .closeBracket⟩] rest :=
  @Lexes.token n .closeBracket rest [] rest ⟨List.prefix_append _ _, trivial⟩ .done

theorem lexes_comma : Lexes n (", " ++ rest) [⟨n, .comma⟩] rest :=
  @Lexes.token n .comma (.scalar ' ' :: rest) [] rest ⟨List.prefix_append _ _, trivial⟩
    (.blank rfl .done)

theorem lexes_bar : Lexes n (" | " ++ rest) [⟨n + 1, .bar⟩] rest :=
  .blank rfl (@Lexes.token (n + 1) .bar (.scalar ' ' :: rest) [] rest
    ⟨List.prefix_append _ _, trivial⟩ (.blank rfl .done))

/-- A text writes a phrase of a kind with a denotation, at any place where no name goes on. -/
def Writes {α β : Type} (phrase : α → Phrase) (Denotes : α → β → Prop) (w : Text) (b : β) : Prop :=
  ∀ n rest, nameTail rest = [] →
    ∃ toks a, Lexes n (w ++ rest) toks rest ∧ Derives (phrase a) toks ∧ Denotes a b

theorem nameTail_separated (separator : Text) (h : ∀ t, nameTail (separator ++ t) = [])
    (stop : nameTail rest = []) (ws : List Text) :
    nameTail (ws.flatMap (separator ++ ·) ++ rest) = [] := by
  cases ws with
  | nil => exact stop
  | cons w ws =>
    rw [List.flatMap_cons, List.append_assoc, List.append_assoc]
    exact h _

/-- A list goes on with items that each have a separator before them. -/
theorem writes_more {α β : Type} {item : α → Phrase} {more : List α → Phrase} {D : α → β → Prop}
    {bs : List β} {separator : Text} {mark : Token}
    (apart : ∀ t, nameTail (separator ++ t) = [])
    (separates : ∀ n rest, ∃ m, Lexes n (separator ++ rest) [⟨m, mark⟩] rest)
    (none : Derives (more []) [])
    (next : ∀ {m a as w v}, Derives (item a) w → Derives (more as) v →
      Derives (more (a :: as)) (⟨m, mark⟩ :: (w ++ v)))
    (h : List.Forall₂ (Writes item D) ws bs) :
    Writes more (List.Forall₂ D) (ws.flatMap (separator ++ ·)) bs := by
  induction h with
  | nil => exact fun n rest _ => ⟨[], [], .done, none, .nil⟩
  | @cons w b ws bs first _ ih =>
    intro n rest stop
    have stop' := nameTail_separated separator apart stop ws
    obtain ⟨m, separated⟩ := separates n (w ++ (ws.flatMap (separator ++ ·) ++ rest))
    obtain ⟨k, afterMark⟩ := separated.resume
    obtain ⟨v, a, lexes, derives, denotes⟩ := first k _ stop'
    obtain ⟨k', afterItem⟩ := lexes.resume
    obtain ⟨v', as, lexes', derives', denotes'⟩ := ih k' rest stop
    refine ⟨_, a :: as, ?_, next (m := m) derives derives', .cons denotes denotes'⟩
    rw [List.flatMap_cons, List.append_assoc, List.append_assoc]
    exact afterMark _ _ (afterItem _ _ lexes')

theorem writes_moreArgs {β : Type} {D : Arg → β → Prop} {bs : List β}
    (h : List.Forall₂ (Writes .arg D) ws bs) :
    Writes .moreArgs (List.Forall₂ D) (ws.flatMap ((", " : Text) ++ ·)) bs :=
  writes_more (fun _ => rfl) (fun n _ => ⟨n, lexes_comma⟩) .noArgs .comma h

theorem writes_brackets {β : Type} {D : Arg → β → Prop} {bs : List β}
    (h : List.Forall₂ (Writes .arg D) (w :: ws) bs) :
    Writes .brackets (List.Forall₂ D)
      (.scalar '[' :: ((", " : Text).intercalate (w :: ws) ++ [.scalar ']'])) bs := by
  obtain ⟨b, bs, first, others, rfl⟩ := List.forall₂_cons_left_iff.mp h
  intro n rest stop
  have closes : nameTail (.scalar ']' :: rest) = [] := rfl
  have stop' := nameTail_separated ", " (fun _ => rfl) closes ws
  obtain ⟨m, afterOpen⟩ := (lexes_openBracket (n := n)).resume
  obtain ⟨v, a, lexes, derives, denotes⟩ := first m _ stop'
  obtain ⟨k, afterArg⟩ := lexes.resume
  obtain ⟨v', args, lexes', derives', denotes'⟩ := writes_moreArgs others k _ closes
  obtain ⟨j, afterArgs⟩ := lexes'.resume
  refine ⟨_, a :: args, ?_, .brackets (n := n) (m := j) derives derives', .cons denotes denotes'⟩
  simp only [Text.intercalate_cons, List.cons_append, List.append_assoc, List.nil_append]
  exact afterOpen _ _ (afterArg _ _ (afterArgs _ _ lexes_closeBracket))

theorem Union.denotes_iff {t : Ty} : u.Denotes t ↔ ∃ ts, u.DenotesEach ts ∧ Ty.combine ts = t := by
  obtain ⟨first, rest⟩ := u
  constructor
  · intro h
    cases h with
    | atom type => exact ⟨_, .cons type .nil, rfl⟩
    | union types => exact ⟨_, types, rfl⟩
  · rintro ⟨ts, each, rfl⟩
    cases rest with
    | nil =>
      obtain ⟨t, _, type, none, rfl⟩ := List.forall₂_cons_left_iff.mp each
      cases none
      exact .atom type
    | cons => exact .union each

theorem Derives.more_atoms_append (h : Derives (.moreAtoms atoms) toks)
    (later : Derives (.moreAtoms atoms') more) :
    Derives (.moreAtoms (atoms ++ atoms')) (toks ++ more) := by
  induction atoms generalizing toks with
  | nil =>
    cases h
    exact later
  | cons a atoms ih =>
    cases h with
    | bar first rest => simpa using Derives.bar first (ih rest)

theorem Derives.union_append (h : Derives (.union u) toks)
    (later : Derives (.moreAtoms atoms) more) :
    Derives (.union ⟨u.first, u.rest ++ atoms⟩) (toks ++ more) := by
  cases h with
  | union first rest => simpa using Derives.union first (rest.more_atoms_append later)

theorem Derives.union_alone {a : Atom} (h : Derives (.atom a) toks) :
    Derives (.union ⟨a, []⟩) toks := by
  simpa using Derives.union h .noAtoms

theorem Derives.bar_union (h : Derives (.union u) toks) (later : Derives (.moreAtoms atoms) more)
    (n : Nat) : Derives (.moreAtoms (u.atoms ++ atoms)) (⟨n, .bar⟩ :: (toks ++ more)) := by
  cases h with
  | union first rest =>
    simpa [Union.atoms] using Derives.bar (n := n) first (rest.more_atoms_append later)

theorem Writes.of_each (h : Writes .union Union.DenotesEach w ts) :
    Writes .union Union.Denotes w (.combine ts) := by
  intro n rest stop
  obtain ⟨toks, u, lexes, derives, each⟩ := h n rest stop
  exact ⟨toks, u, lexes, derives, Union.denotes_iff.mpr ⟨ts, each, rfl⟩⟩

/-- Unions with bars between them are one union of all their atoms. -/
theorem writes_barred (h : List.Forall₂ (Writes .union Union.DenotesEach) (w :: ws) groups) :
    Writes .union Union.DenotesEach ((" | " : Text).intercalate (w :: ws)) groups.flatten := by
  obtain ⟨group, groups, first, others, rfl⟩ := List.forall₂_cons_left_iff.mp h
  have following : Writes (fun us => .moreAtoms (us.flatMap Union.atoms))
      (List.Forall₂ Union.DenotesEach) (ws.flatMap ((" | " : Text) ++ ·)) groups :=
    writes_more (fun _ => rfl) (fun n _ => ⟨n + 1, lexes_bar⟩) .noAtoms
      (fun {m _ _ _ _} one later => one.bar_union later m) others
  intro n rest stop
  have stop' := nameTail_separated " | " (fun _ => rfl) stop ws
  obtain ⟨toks, u, lexes, derives, each⟩ := first n _ stop'
  obtain ⟨k, afterFirst⟩ := lexes.resume
  obtain ⟨toks', us, lexes', derives', each'⟩ := following k rest stop
  refine ⟨toks ++ toks', _, ?_, derives.union_append derives', ?_⟩
  · rw [Text.intercalate_cons, List.append_assoc]
    exact afterFirst _ _ lexes'
  · have all := List.rel_append each (List.rel_flatten (List.forall₂_map_left_iff.mpr each'))
    simpa [Union.DenotesEach, Union.atoms, List.flatMap] using all

theorem Writes.alone {t : Ty} (h : Writes .atom Atom.Denotes w t) :
    Writes .union Union.DenotesEach w [t] := by
  intro n rest stop
  obtain ⟨toks, a, lexes, derives, denotes⟩ := h n rest stop
  exact ⟨toks, ⟨a, []⟩, lexes, derives.union_alone, .cons denotes .nil⟩

theorem Writes.union {t : Ty} (h : Writes .atom Atom.Denotes w t) :
    Writes .union Union.Denotes w t := by
  simpa [combine_singleton] using h.alone.of_each

theorem writes_union {ts : List Ty} (h : List.Forall₂ (Writes .atom Atom.Denotes) (w :: ws) ts) :
    Writes .union Union.Denotes ((" | " : Text).intercalate (w :: ws)) (.combine ts) := by
  have each : List.Forall₂ (Writes .union Union.DenotesEach) (w :: ws) (ts.map fun t => [t]) :=
    List.forall₂_map_right_iff.mpr (h.imp fun _ _ => Writes.alone)
  have flat : (ts.map fun t => [t]).flatten = ts := List.flatMap_singleton' ts
  simpa only [flat] using (writes_barred each).of_each

theorem Writes.arg {t : Ty} (h : Writes .union Union.Denotes w t) :
    Writes .arg Arg.Denotes w t := by
  intro n rest stop
  obtain ⟨toks, u, lexes, derives, denotes⟩ := h n rest stop
  exact ⟨toks, u.toArg, lexes, .type derives, denotes⟩

theorem writes_name {t : Ty} (h : IsName l) (denotes : ∀ n, (Atom.mk ⟨n, l⟩ []).Denotes t) :
    Writes .atom Atom.Denotes l t := by
  intro n rest stop
  exact ⟨_, _, lexes_name h stop, .name, denotes n⟩

/-- A name with arguments, whatever the name makes of them. -/
theorem writes_applied {β γ : Type} {D : Arg → β → Prop} {E : Atom → γ → Prop} {bs : List β} {t : γ}
    (h : IsName l) (args : List.Forall₂ (Writes .arg D) (w :: ws) bs)
    (denotes : ∀ n args, List.Forall₂ D args bs → E (.mk ⟨n, l⟩ args) t) :
    Writes .atom E (l ++ .scalar '[' :: ((", " : Text).intercalate (w :: ws) ++ [.scalar ']'])) t := by
  intro n rest stop
  have opens (text : Text) : nameTail (.scalar '[' :: text) = [] := rfl
  obtain ⟨m, afterName⟩ := (lexes_name (n := n) h (opens _)).resume
  obtain ⟨toks, as, lexes, derives, each⟩ := writes_brackets args m rest stop
  refine ⟨_, _, ?_, .applied (n := n) derives, denotes n as each⟩
  rw [List.append_assoc]
  exact afterName _ _ lexes

/-- A text that writes a union with nothing around it is read. -/
theorem Writes.read {t : Ty} (h : Writes .union Union.Denotes w t) : read w = .ok t := by
  obtain ⟨toks, u, lexes, derives, denotes⟩ := h 0 [] rfl
  rw [List.append_nil] at lexes
  exact read_of_denotes lexes derives denotes

end TypeLedger.Expr
