import TypeLedger.Json.Reader
import TypeLedger.Json.Writer
import TypeLedger.Proofs.Json.Spacing
import TypeLedger.Proofs.Text.Scalar

/-! Reading what was written gives the value back: its tokens, however they are spaced and escaped, take
the machine from where a value has to follow to where this one is complete. -/
namespace TypeLedger.Json

namespace Value

mutual

/-- The tokens that write a value. -/
def tokens : Value → List Token
  | null => [.scalar .null]
  | bool b => [.scalar (.bool b)]
  | int i => [.integer (i < 0) (Numeral.ofNat i.natAbs)]
  | fraction d => [.scalar (.fraction d)]
  | string t => [.string t]
  | array [] => [.leftBracket, .rightBracket]
  | array (v :: rest) => .leftBracket :: (v.tokens ++ (moreItems rest ++ [.rightBracket]))
  | object [] => [.leftBrace, .rightBrace]
  | object ((k, v) :: rest) =>
    .leftBrace :: .string k :: .colon :: (v.tokens ++ (moreFields rest ++ [.rightBrace]))

def moreItems : List Value → List Token
  | [] => []
  | v :: rest => .comma :: (v.tokens ++ moreItems rest)

def moreFields : List (Text × Value) → List Token
  | [] => []
  | (k, v) :: rest => .comma :: .string k :: .colon :: (v.tokens ++ moreFields rest)

end

/-- The value is written without loss: it has no fraction and no key twice, its integers are short, and
no string holds the halves of a surrogate pair next to each other. -/
inductive Exact : Value → Prop
  | null : Exact null
  | bool (b : Bool) : Exact (bool b)
  | int {i : Int} : (Numeral.ofNat i.natAbs).length ≤ Numeral.maxDigits → Exact (int i)
  | string {t : Text} : ¬t.HasSplitPair → Exact (string t)
  | array {items : List Value} : (∀ v ∈ items, Exact v) → Exact (array items)
  | object {fields : List (Text × Value)} : (fields.map Prod.fst).Nodup →
      (∀ f ∈ fields, ¬f.1.HasSplitPair) → (∀ f ∈ fields, Exact f.2) → Exact (object fields)

theorem exists_tokens (v : Value) :
    ∃ tok later, v.tokens = tok :: later ∧ tok ≠ .rightBracket := by
  rcases v with _ | _ | _ | _ | _ | ⟨_ | _⟩ | ⟨_ | ⟨_, _⟩⟩ <;>
  · rw [tokens]
    exact ⟨_, _, rfl, nofun⟩

end Value

/-- A key that comes once does not come earlier. -/
theorem fresh_of_nodup {k : Text} {v : Value} {before after : List (Text × Value)}
    (h : ((before ++ (k, v) :: after).map Prod.fst).Nodup) : k ∉ before.map Prod.fst := by
  intro mem
  rw [List.map_append, List.nodup_append] at h
  exact h.2.2 k mem k List.mem_cons_self rfl

namespace State

variable {s s' s'' : State} {toks toks' : List Token} {tok : Token} {stack : List Frame}
  {v : Value} {k : Text} {items : List Value} {read rest : List (Text × Value)}

/-- The machine goes from one state to the other with the tokens, wherever they stand. -/
def Takes (s : State) (toks : List Token) (s' : State) : Prop :=
  ∀ stop (located more : List (Located Token)), located.map Located.item = toks →
    s.run (some Numeral.maxDigits) stop (located ++ more) =
      s'.run (some Numeral.maxDigits) stop more

theorem Takes.refl (s : State) : s.Takes [] s := by
  intro stop located more same
  rw [List.map_eq_nil_iff.mp same, List.nil_append]

theorem Takes.trans (h : s.Takes toks s') (h' : s'.Takes toks' s'') :
    s.Takes (toks ++ toks') s'' := by
  intro stop located more same
  obtain ⟨first, second, rfl, one, two⟩ := List.map_eq_append_iff.mp same
  rw [List.append_assoc, h stop first _ one, h' stop second more two]

theorem Takes.cons (step : ∀ place, s.step (some Numeral.maxDigits) place tok = .ok s')
    (h : s'.Takes toks s'') : s.Takes (tok :: toks) s'' := by
  intro stop located more same
  obtain ⟨⟨place, _⟩, later, rfl, rfl, others⟩ := List.map_eq_cons_iff.mp same
  rw [List.cons_append, run, step]
  exact h stop later more others

theorem takes_one (step : ∀ place, s.step (some Numeral.maxDigits) place tok = .ok s') :
    s.Takes [tok] s' :=
  .cons step (.refl s')

/-- The first item of an array is read as the others are. -/
theorem takes_firstItem (h : (value (.items [] :: stack)).Takes v.tokens s) :
    (firstItem stack).Takes v.tokens s := by
  intro stop located more same
  rw [← h stop located more same]
  obtain ⟨tok, later, tokens, other⟩ := v.exists_tokens
  rw [tokens] at same
  obtain ⟨⟨place, _⟩, later, rfl, rfl, -⟩ := List.map_eq_cons_iff.mp same
  have step (tok : Token) (other : tok ≠ .rightBracket) :
      (firstItem stack).step (some Numeral.maxDigits) place tok =
        (value (.items [] :: stack)).step (some Numeral.maxDigits) place tok := by
    cases tok <;> first | rfl | exact absurd rfl other
  rw [List.cons_append, run, run, step _ other]

theorem takes_moreItems
    (each : ∀ w ∈ items, ∀ stack, (value stack).Takes w.tokens (complete w stack))
    (v : Value) (read : List Value) : (complete v (.items read :: stack)).Takes
      (Value.moreItems items ++ [.rightBracket])
      (complete (.array ((v :: read).reverse ++ items)) stack) := by
  induction items generalizing v read with
  | nil =>
    rw [Value.moreItems, List.append_nil]
    exact takes_one fun _ => rfl
  | cons w items ih =>
    obtain ⟨first, others⟩ := List.forall_mem_cons.mp each
    have more := (first (.items (v :: read) :: stack)).trans (ih others w (v :: read))
    rw [List.reverse_cons, List.append_assoc, List.singleton_append] at more
    rw [Value.moreItems, List.cons_append, List.append_assoc]
    exact .cons (fun _ => rfl) more

theorem put_new (h : k ∉ read.map Prod.fst) : put k v read = read ++ [(k, v)] := by
  induction read with
  | nil => rfl
  | cons f read ih =>
    obtain ⟨other, later⟩ := not_or.mp (List.mem_cons.not.mp h)
    rw [put, if_neg (fun same => other same.symm), ih later, List.cons_append]

theorem takes_moreFields
    (each : ∀ f ∈ rest, ∀ stack, (value stack).Takes f.2.tokens (complete f.2 stack))
    (k : Text) (v : Value) (read : List (Text × Value))
    (distinct : ((read ++ (k, v) :: rest).map Prod.fst).Nodup) :
    (complete v (.field read k :: stack)).Takes (Value.moreFields rest ++ [.rightBrace])
      (complete (.object (read ++ (k, v) :: rest)) stack) := by
  induction rest generalizing k v read with
  | nil =>
    rw [Value.moreFields, ← put_new (fresh_of_nodup distinct)]
    exact takes_one fun _ => rfl
  | cons f rest ih =>
    obtain ⟨next, w⟩ := f
    obtain ⟨first, others⟩ := List.forall_mem_cons.mp each
    have whole : put k v read ++ (next, w) :: rest = read ++ (k, v) :: (next, w) :: rest := by
      rw [put_new (fresh_of_nodup distinct), List.append_assoc]
      rfl
    have more := (first (.field (put k v read) next :: stack)).trans
      (ih others next w (put k v read) (whole ▸ distinct))
    rw [whole] at more
    rw [Value.moreFields]
    simp only [List.cons_append, List.append_assoc]
    exact .cons (fun _ => rfl) (.cons (fun _ => rfl) (.cons (fun _ => rfl) more))

theorem takes_value (h : v.Exact) (stack : List Frame) :
    (value stack).Takes v.tokens (complete v stack) := by
  induction h generalizing stack with
  | null | bool | string => exact takes_one fun _ => rfl
  | @int i short =>
    have sign : (if decide (i < 0) then -(i.natAbs : Int) else i.natAbs) = i := by
      by_cases negative : i < 0
      · rw [decide_eq_true negative, if_pos rfl]
        omega
      · rw [decide_eq_false negative, if_neg (by decide)]
        omega
    rw [Value.tokens]
    refine takes_one fun place => ?_
    rw [step, takeValue, Numeral.read, if_pos short, Numeral.value_ofNat]
    exact congrArg (fun i => Except.ok (complete (.int i) stack)) sign
  | @array items _ ih =>
    cases items with
    | nil =>
      rw [Value.tokens]
      exact .cons (fun _ => rfl) (takes_one fun _ => rfl)
    | cons v rest =>
      obtain ⟨first, others⟩ := List.forall_mem_cons.mp ih
      rw [Value.tokens]
      exact .cons (fun _ => rfl)
        ((takes_firstItem (first _)).trans (takes_moreItems others v []))
  | @object fields distinct _ _ ih =>
    cases fields with
    | nil =>
      rw [Value.tokens]
      exact .cons (fun _ => rfl) (takes_one fun _ => rfl)
    | cons f rest =>
      obtain ⟨k, v⟩ := f
      obtain ⟨first, others⟩ := List.forall_mem_cons.mp ih
      rw [Value.tokens]
      exact .cons (fun _ => rfl) (.cons (fun _ => rfl) (.cons (fun _ => rfl)
        ((first _).trans (takes_moreFields others k v [] distinct))))

end State

variable {toks toks' : List Token} {tok : Token} {v : Value} {k t t' : Text} {items : List Value}
  {fields : List (Text × Value)}

/-- Tokens that may come after a value. -/
structure Follows (toks : List Token) : Prop extends Distinct toks where
  mark : ∀ b ∈ toks.head?, b.mark?.isSome

theorem distinct_nil : Distinct [] := ⟨.nil, List.forall_mem_nil _⟩

theorem distinct_one (whole : tok.IsWhole) : Distinct [tok] :=
  distinct_cons_iff.mpr ⟨whole, distinct_nil, nofun⟩

theorem Distinct.follows (h : Distinct toks) (mark : tok.mark?.isSome) :
    Follows (tok :: toks) := by
  have whole : tok.IsWhole := by
    cases tok with
    | string => cases mark
    | _ => trivial
  refine ⟨distinct_cons_iff.mpr ⟨whole, h, fun _ _ => .inl mark⟩, ?_⟩
  rintro _ ⟨⟩
  exact mark

theorem Distinct.append (h : Distinct toks) (h' : Follows toks') : Distinct (toks ++ toks') where
  apart := h.apart.append h'.apart fun _ _ b head => .inr (h'.mark b head)
  whole := List.forall_mem_append.mpr ⟨h.whole, h'.whole⟩

/-- A key comes before the colon of its value. -/
theorem Distinct.key (h : Distinct toks) (whole : ¬k.HasSplitPair) :
    Distinct (.string k :: .colon :: toks) := by
  have colon : Follows (.colon :: toks) := h.follows rfl
  exact distinct_cons_iff.mpr ⟨whole, colon.toDistinct, fun b head => .inr (colon.mark b head)⟩

theorem follows_moreItems (each : ∀ w ∈ items, Distinct w.tokens) :
    Follows (Value.moreItems items ++ [Token.rightBracket]) := by
  induction items with
  | nil => exact distinct_nil.follows rfl
  | cons w items ih =>
    obtain ⟨first, others⟩ := List.forall_mem_cons.mp each
    rw [Value.moreItems, List.cons_append, List.append_assoc]
    exact (first.append (ih others)).follows rfl

theorem follows_moreFields (keys : ∀ f ∈ fields, ¬f.1.HasSplitPair)
    (each : ∀ f ∈ fields, Distinct f.2.tokens) :
    Follows (Value.moreFields fields ++ [Token.rightBrace]) := by
  induction fields with
  | nil => exact distinct_nil.follows rfl
  | cons f fields ih =>
    obtain ⟨key, keys⟩ := List.forall_mem_cons.mp keys
    obtain ⟨first, others⟩ := List.forall_mem_cons.mp each
    rw [Value.moreFields]
    simp only [List.cons_append, List.append_assoc]
    exact ((first.append (ih keys others)).key key).follows rfl

theorem Value.Exact.distinct (h : v.Exact) : Distinct v.tokens := by
  induction h with
  | null | bool | int =>
    rw [tokens]
    exact distinct_one trivial
  | string whole =>
    rw [tokens]
    exact distinct_one whole
  | @array items _ ih =>
    cases items with
    | nil =>
      rw [tokens]
      exact ((distinct_nil.follows rfl).follows rfl).toDistinct
    | cons v rest =>
      obtain ⟨first, others⟩ := List.forall_mem_cons.mp ih
      rw [tokens]
      exact ((first.append (follows_moreItems others)).follows rfl).toDistinct
  | @object fields _ keys _ ih =>
    cases fields with
    | nil =>
      rw [tokens]
      exact ((distinct_nil.follows rfl).follows rfl).toDistinct
    | cons f rest =>
      obtain ⟨key, keys⟩ := List.forall_mem_cons.mp keys
      obtain ⟨first, others⟩ := List.forall_mem_cons.mp ih
      rw [tokens]
      exact (((first.append (follows_moreFields keys others)).key key).follows rfl).toDistinct

/-- A value is read from any text of its tokens. -/
theorem read_spaced (h : v.Exact) (spaced : Spaced v.tokens t) :
    read (some Numeral.maxDigits) t = .ok v := by
  obtain ⟨located, scanned, same⟩ := spaced.tokens h.distinct 0
  have taken := State.takes_value h [] ⟨0 + t.length, .finished⟩ located [] same
  rw [List.append_nil] at taken
  rw [read, if_neg spaced.head?_ne_mark, scanned]
  exact taken

theorem Spaced.append (h : Spaced toks t) (h' : Spaced toks' t') :
    Spaced (toks ++ toks') (t ++ t') := by
  induction h with
  | nil => exact h'
  | blank blank _ ih => exact .blank blank ih
  | token spells _ ih =>
    rw [List.append_assoc]
    exact .token spells ih

theorem spaced_one (h : Spells tok t) : Spaced [tok] t := by
  simpa using Spaced.token h .nil

theorem spaced_quote (s : Text) : Spaced [.string s] (quote s) := by
  obtain ⟨pieces, h⟩ := exists_escapesText s
  exact spaced_one (.string h)

theorem spaced_moreItems (each : ∀ w ∈ items, Spaced w.tokens w.write) :
    Spaced (Value.moreItems items) ((Value.writeItems items).flatMap ((", " : Text) ++ ·)) := by
  induction items with
  | nil => exact .nil
  | cons w items ih =>
    obtain ⟨first, others⟩ := List.forall_mem_cons.mp each
    have next : Spaced [.comma] ", " := .token (.mark rfl) (.blank rfl .nil)
    rw [Value.moreItems, Value.writeItems, List.flatMap_cons, List.append_assoc]
    exact next.append (first.append (ih others))

theorem spaced_field {k : Text} (h : Spaced v.tokens v.write) :
    Spaced (.string k :: .colon :: v.tokens) (.concat [quote k, ": ", v.write]) := by
  have colon : Spaced [.colon] ": " := .token (.mark rfl) (.blank rfl .nil)
  simpa [Text.concat] using (spaced_quote k).append (colon.append h)

theorem spaced_moreFields (each : ∀ f ∈ fields, Spaced f.2.tokens f.2.write) :
    Spaced (Value.moreFields fields) ((Value.writeFields fields).flatMap ((", " : Text) ++ ·)) := by
  induction fields with
  | nil => exact .nil
  | cons f fields ih =>
    obtain ⟨first, others⟩ := List.forall_mem_cons.mp each
    have next : Spaced [.comma] ", " := .token (.mark rfl) (.blank rfl .nil)
    rw [Value.moreFields, Value.writeFields, List.flatMap_cons, List.append_assoc]
    exact next.append ((spaced_field first).append (ih others))

/-- The writer spaces the tokens of a value. -/
theorem Value.Exact.spaced_write (h : v.Exact) : Spaced v.tokens v.write := by
  induction h with
  | null =>
    rw [tokens, write]
    exact spaced_one .null
  | bool b =>
    rw [tokens, write]
    exact spaced_one (.bool b)
  | @int i =>
    rw [tokens, write]
    exact spaced_one (.integer i)
  | @string t =>
    rw [tokens, write]
    exact spaced_quote t
  | @array items _ ih =>
    cases items with
    | nil =>
      rw [tokens, write]
      exact (spaced_one (.mark rfl)).append (spaced_one (.mark rfl))
    | cons v rest =>
      obtain ⟨first, others⟩ := List.forall_mem_cons.mp ih
      have close : Spaced [.rightBracket] "]" := spaced_one (.mark rfl)
      have inner := first.append ((spaced_moreItems others).append close)
      rw [tokens, write, writeItems, Text.joinWith, Text.intercalate_cons]
      simpa [Text.concat] using (spaced_one (.mark rfl) : Spaced [.leftBracket] "[").append inner
  | @object fields _ _ _ ih =>
    cases fields with
    | nil =>
      rw [tokens, write]
      exact (spaced_one (.mark rfl)).append (spaced_one (.mark rfl))
    | cons f rest =>
      obtain ⟨first, others⟩ := List.forall_mem_cons.mp ih
      have close : Spaced [.rightBrace] "\x7d" := spaced_one (.mark rfl)
      have inner := (spaced_field (k := f.1) first).append ((spaced_moreFields others).append close)
      rw [tokens, write, writeFields, Text.joinWith, Text.intercalate_cons]
      simpa [Text.concat] using (spaced_one (.mark rfl) : Spaced [.leftBrace] "\x7b").append inner

end TypeLedger.Json
