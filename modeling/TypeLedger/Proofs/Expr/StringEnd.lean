import TypeLedger.Proofs.Expr.Outcome
import TypeLedger.Proofs.Json.Decoding
import TypeLedger.Proofs.Text.Pattern

/-! Where a string ends. A pattern finds the closing quote by what is right before it, and the decoder
of escapes by going on from the opening one. They agree on every text, so a string that has been found
is decoded to its end or has a fault inside. -/
namespace TypeLedger.Expr

open Text (Pattern)

variable {source before t l m x y : Text} {c : CodePoint} {n o p : Nat}

def quotePattern : Pattern := .one (· = .scalar '"')

def backslashPattern : Pattern := .one (· = .scalar '\\')

/-- Pairs of backslashes and a quote. -/
def closingPattern : Pattern :=
  .seq (.few (.seq backslashPattern backslashPattern)) quotePattern

/-- The end of a string, where no backslash is right before the pairs. -/
def endPattern : Pattern := .seq (.notAfter (.scalar '\\')) closingPattern

/-- A string: a quote, as little as will do of what follows it on the line, and an end. -/
def stringPattern : Pattern :=
  .seq quotePattern (.seq (.few (.one (· ≠ .scalar '\n'))) endPattern)

theorem takes_is (c : CodePoint) : (Pattern.one (· = c)).Takes (· = [c]) :=
  (Pattern.takes_one _).congr fun m => by simp

/-- A closing quote with pairs of backslashes before it. -/
def IsClosing (m : Text) : Prop :=
  ∃ k, m = List.replicate (k * 2) (.scalar '\\') ++ [.scalar '"']

theorem takes_closingPattern : closingPattern.Takes IsClosing := by
  have backslashes : (Pattern.seq backslashPattern backslashPattern).Takes
      (· = List.replicate 2 (.scalar '\\')) :=
    ((takes_is _).seq (takes_is _)).congr fun m => by simp [List.replicate]
  have pairs := Pattern.takes_few_of_eq backslashes (by simp)
  refine (pairs.seq (takes_is (.scalar '"'))).congr fun m => ⟨?_, ?_⟩
  · rintro ⟨_, _, ⟨k, rfl⟩, rfl, rfl⟩
    exact ⟨k, by rw [List.flatten_replicate_replicate]⟩
  · rintro ⟨k, rfl⟩
    exact ⟨_, _, ⟨k, rfl⟩, rfl, by rw [List.flatten_replicate_replicate]⟩

theorem mem_endPattern : m ∈ endPattern.candidates before t ↔
    before.getLast? ≠ some (.scalar '\\') ∧ IsClosing m ∧ m <+: t := by
  constructor
  · intro h
    obtain ⟨_, nothing, _, closes, rfl⟩ := Pattern.mem_seq.mp h
    obtain ⟨apart, rfl⟩ := Pattern.mem_notAfter.mp nothing
    exact ⟨apart, takes_closingPattern.mp closes⟩
  · rintro ⟨apart, closes⟩
    exact Pattern.mem_seq.mpr ⟨[], Pattern.mem_notAfter.mpr ⟨apart, rfl⟩, m,
      takes_closingPattern.mpr closes, rfl⟩

theorem backslashesAtEnd_append (h : x.getLast? ≠ some (.scalar '\\')) (n : Nat) :
    backslashesAtEnd (x ++ List.replicate n (.scalar '\\')) = n := by
  have all : ∀ c ∈ List.replicate n (CodePoint.scalar '\\'),
      decide (c = .scalar '\\') = true := by
    simp
  have none : x.reverse.takeWhile (· = .scalar '\\') = [] := by
    rw [← List.head?_reverse] at h
    cases reversed : x.reverse with
    | nil => rfl
    | cons c r => simpa [reversed] using h
  rw [backslashesAtEnd, List.reverse_append, List.reverse_replicate,
    List.takeWhile_append_of_pos all, none, List.append_nil, List.length_replicate]

theorem exists_backslashesAtEnd (body : Text) : ∃ x,
    body = x ++ List.replicate (backslashesAtEnd body) (.scalar '\\') ∧
      x.getLast? ≠ some (.scalar '\\') := by
  refine ⟨(body.reverse.dropWhile (· = .scalar '\\')).reverse, ?_, ?_⟩
  · have same : body.reverse.takeWhile (· = .scalar '\\') =
        List.replicate (backslashesAtEnd body) (.scalar '\\') :=
      List.eq_replicate_of_mem fun c mem => by simpa using List.mem_takeWhile_imp mem
    rw [← List.reverse_replicate, ← same, ← List.reverse_append,
      List.takeWhile_append_dropWhile, List.reverse_reverse]
  · rw [List.getLast?_reverse]
    intro last
    have := List.head?_dropWhile_not (· = CodePoint.scalar '\\') body.reverse
    simp [last] at this

/-- The last backslashes of a string are pairs. -/
theorem isString_iff_paired : IsString l ↔ ∃ x closing, l = .scalar '"' :: (x ++ closing) ∧
    .scalar '\n' ∉ x ∧ x.getLast? ≠ some (.scalar '\\') ∧ IsClosing closing := by
  constructor
  · rintro ⟨body, rfl, inside, even⟩
    obtain ⟨x, same, apart⟩ := exists_backslashesAtEnd body
    refine ⟨x, _, ?_, fun mem => inside ?_, apart, backslashesAtEnd body / 2, rfl⟩
    · rw [Nat.div_mul_cancel (Nat.dvd_of_mod_eq_zero even), ← List.append_assoc, ← same]
    · rw [same]
      exact List.mem_append_left _ mem
  · rintro ⟨x, _, rfl, inside, apart, k, rfl⟩
    refine ⟨x ++ List.replicate (k * 2) (.scalar '\\'), by simp, ?_, ?_⟩
    · simp [inside, List.mem_replicate]
    · rw [backslashesAtEnd_append apart, Nat.mul_mod_left]

/-- What is looked back at is the opening quote or a part of the string. -/
theorem getLast?_opened (before x : Text) :
    (before ++ [CodePoint.scalar '"'] ++ x).getLast? ≠ some (.scalar '\\') ↔
      x.getLast? ≠ some (.scalar '\\') := by
  rw [List.getLast?_append]
  cases x.getLast? <;> simp

theorem takes_stringPattern : stringPattern.Takes IsString := by
  intro before t l
  rw [isString_iff_paired]
  constructor
  · intro h
    refine ⟨?_, Pattern.prefix_of_mem h⟩
    obtain ⟨_, opens, _, inner, rfl⟩ := Pattern.mem_seq.mp h
    obtain ⟨rfl, -⟩ := (takes_is _).mp opens
    obtain ⟨x, line, closing, last, rfl⟩ := Pattern.mem_seq.mp inner
    obtain ⟨onLine, -⟩ := (Pattern.takes_few_one _).mp line
    obtain ⟨apart, isClosing, -⟩ := mem_endPattern.mp last
    refine ⟨x, closing, rfl, fun mem => ?_, (getLast?_opened before x).mp apart, isClosing⟩
    simpa using onLine _ mem
  · rintro ⟨⟨x, closing, rfl, inside, apart, isClosing⟩, starts⟩
    have opens : [.scalar '"'] <+: t := (List.prefix_append _ _).trans starts
    have inner := (Pattern.append_prefix_iff opens).mp starts
    have line := (List.prefix_append _ _).trans inner
    have last := (Pattern.append_prefix_iff line).mp inner
    refine Pattern.mem_seq.mpr ⟨_, (takes_is _).mpr ⟨rfl, opens⟩, _, ?_, rfl⟩
    refine Pattern.mem_seq.mpr ⟨x, (Pattern.takes_few_one _).mpr ⟨fun c mem => ?_, line⟩, closing,
      mem_endPattern.mpr ⟨(getLast?_opened before x).mpr apart, isClosing, last⟩, rfl⟩
    rw [decide_eq_true_eq]
    rintro rfl
    exact inside mem

theorem increasing_closingPattern :
    Pattern.Increasing (closingPattern.candidates before t) := by
  have single : (Pattern.seq backslashPattern backslashPattern).Single :=
    Pattern.single_seq (Pattern.single_one _) (Pattern.single_one _)
  refine Pattern.increasing_seq (Pattern.increasing_few single)
    (fun _ _ => Pattern.pairwise_of_single (Pattern.single_one _) _) ?_
  intro x _ y _ less u hu v hv
  obtain ⟨rfl, -⟩ := (takes_is _).mp hu
  obtain ⟨rfl, -⟩ := (takes_is _).mp hv
  simpa using less

/-- Where more of a line is taken, an end is found further on: up to the end that was found first there
are only backslashes, and an end does not come right after one. -/
theorem length_lt_of_ends {u v : Text} (hx : x <+: t) (hy : y <+: t) (less : x.length < y.length)
    (hu : u ∈ endPattern.candidates (before ++ x) (t.drop x.length))
    (hv : v ∈ endPattern.candidates (before ++ y) (t.drop y.length)) :
    (x ++ u).length < (y ++ v).length := by
  obtain ⟨-, ⟨k, rfl⟩, first⟩ := mem_endPattern.mp hu
  obtain ⟨apart, ⟨j, rfl⟩, -⟩ := mem_endPattern.mp hv
  by_contra early
  rw [← Pattern.append_prefix_iff hx, ← List.append_assoc] at first
  have inside : y <+: x ++ List.replicate (k * 2) (.scalar '\\') := by
    refine List.prefix_of_prefix_length_le hy ((List.prefix_append _ _).trans first) ?_
    simp only [List.length_append, List.length_replicate, List.length_singleton] at early ⊢
    omega
  obtain ⟨z, rfl⟩ := List.prefix_of_prefix_length_le hx hy less.le
  have some : z ≠ [] := by
    rintro rfl
    simp at less
  have backslashes := (List.prefix_append_right_inj x).mp inside
  have last : z.getLast some = .scalar '\\' :=
    List.eq_of_mem_replicate (backslashes.subset (List.getLast_mem some))
  rw [← List.append_assoc, List.getLast?_append, List.getLast?_eq_some_getLast some, last] at apart
  exact apart rfl

theorem increasing_endPattern : Pattern.Increasing (endPattern.candidates before t) := by
  refine Pattern.increasing_seq (Pattern.pairwise_of_single (Pattern.single_notAfter _) _)
    (fun _ _ => increasing_closingPattern) fun x hx y hy less => ?_
  obtain ⟨-, rfl⟩ := Pattern.mem_notAfter.mp hx
  obtain ⟨-, rfl⟩ := Pattern.mem_notAfter.mp hy
  exact absurd less (lt_irrefl _)

theorem increasing_stringPattern : Pattern.Increasing (stringPattern.candidates before t) := by
  refine Pattern.increasing_seq (Pattern.pairwise_of_single (Pattern.single_one _) _)
    (fun q _ => ?_) fun x hx y hy less => ?_
  · refine Pattern.increasing_seq (Pattern.increasing_few (Pattern.single_one _))
      (fun _ _ => increasing_endPattern) fun x hx y hy less u hu v hv => ?_
    exact length_lt_of_ends (Pattern.prefix_of_mem hx) (Pattern.prefix_of_mem hy) less hu hv
  · obtain ⟨rfl, -⟩ := (takes_is _).mp hx
    obtain ⟨rfl, -⟩ := (takes_is _).mp hy
    exact absurd less (lt_irrefl _)

/-- The pattern matches the string that a text starts with, which is the shortest one. -/
theorem find?_stringPattern :
    stringPattern.find? source p = some l ↔ (Token.string l).Leads (source.drop p) := by
  rw [takes_stringPattern.find?_eq_some_iff fun _ _ => increasing_stringPattern]
  exact and_left_comm

/-- What comes of decoding what follows an opening quote: all of it is taken, or something inside of it
is at fault. -/
inductive Decoded {α : Type} (t : Text) : Except Json.BodyFault (α × Nat) → Prop
  | whole (a : α) : Decoded t (.ok (a, t.length))
  | inside {fault : Json.BodyFault} :
      fault.cause ∈ [Json.BodyFault.Cause.controlCharacter, .badEscape, .badUnit] →
      Decoded t (.error fault)

theorem Decoded.map {α β : Type} {r : Except Json.BodyFault (α × Nat)} (h : Decoded t r)
    (f : α → β) (taken : Text) :
    Decoded (taken ++ t) ((fun r => (f r.1, r.2 + taken.length)) <$> r) := by
  cases h with
  | whole a =>
    have size : (taken ++ t).length = t.length + taken.length := by
      rw [List.length_append, Nat.add_comm]
    have all : Decoded (taken ++ t) (.ok (f a, (taken ++ t).length)) := .whole (f a)
    rwa [size] at all
  | inside among => exact .inside among

theorem stringTail_next {escaped : Bool}
    (h : stringTail escaped (c :: t) = some (c :: t)) (goesOn : c ≠ .scalar '"' ∨ escaped = true) :
    stringTail (c = .scalar '\\' && !escaped) t = some t := by
  rw [stringTail] at h
  split at h
  next => cases h
  rw [if_neg (by rcases goesOn with other | rfl <;> simp_all)] at h
  obtain ⟨tail, read, same⟩ := Option.map_eq_some_iff.mp h
  obtain rfl := (List.cons.inj same).2
  exact read

theorem stringTail_ordinary (h : stringTail false (c :: t) = some (c :: t))
    (notQuote : c ≠ .scalar '"') (notBackslash : c ≠ .scalar '\\') :
    stringTail false t = some t := by
  simpa [notBackslash] using stringTail_next h (.inl notQuote)

theorem stringTail_hexDigit (h : stringTail false (c :: t) = some (c :: t))
    (digit : Numeral.hexDigit? c = some n) : stringTail false t = some t := by
  refine stringTail_ordinary h ?_ ?_ <;>
  · rintro rfl
    cases digit

/-- An end that is not escaped is not taken for a part of an escape. The end of what is left stays its
only one from piece to piece. -/
theorem decoded_readPieces (h : stringTail false t = some t) :
    Decoded t (Json.readPieces o n t) := by
  fun_induction Json.readPieces o n t with
  | case1 => cases h
  | case2 offset rest =>
    obtain rfl : rest = [] := by simpa [stringTail] using h
    exact .whole []
  | case3 =>
    -- A text that ends with a backslash has no closing quote.
    simp [stringTail] at h
  | case4 => exact .inside (by simp)
  | case5 offset a b c d next rest u number ih =>
    obtain ⟨_, ha, _, hb, _, hc, _, hd, -⟩ : ∃ i, Numeral.hexDigit? a = some i ∧
        ∃ j, Numeral.hexDigit? b = some j ∧ ∃ k, Numeral.hexDigit? c = some k ∧
          ∃ l, Numeral.hexDigit? d = some l ∧ _ = u := by
      simpa [Json.unit?, Option.bind_eq_some_iff] using number
    -- None of the digits is the closing quote.
    have escaped := stringTail_next h (.inl (by decide))
    have digits := stringTail_next escaped (.inl (by decide))
    have left := stringTail_hexDigit (stringTail_hexDigit (stringTail_hexDigit
      (stringTail_hexDigit digits ha) hb) hc) hd
    exact (ih left).map (.unit u :: ·) [_, _, _, _, _, _]
  | case6 => exact .inside (by simp)
  | case7 => exact .inside (by simp)
  | case8 offset c rest _ _ e short ih =>
    have escaped := stringTail_next h (.inl (by decide))
    have left := stringTail_next escaped (.inr (by decide))
    exact (ih (by simpa using left)).map (.plain e :: ·) [_, _]
  | case9 => exact .inside (by simp)
  | case10 offset c rest notQuote notLast _ _ noEscape _ ih =>
    have notBackslash : c ≠ .scalar '\\' := by
      rintro rfl
      cases rest with
      | nil => exact notLast rfl rfl
      | cons => exact noEscape _ _ rfl rfl
    exact (ih (stringTail_ordinary h notQuote notBackslash)).map (.plain c :: ·) [_]

theorem decoded_readBody (h : stringTail false t = some t) : Decoded t (Json.readBody n t) := by
  rw [Json.readBody]
  exact (decoded_readPieces h).map Json.joinPieces []

/-- A string that has been found ends nowhere earlier when it stands alone. -/
theorem leads_string_alone (h : (Token.string l).Leads t) :
    ∃ tail, l = .scalar '"' :: tail ∧ stringTail false tail = some tail := by
  have alone : (Token.string l).Leads l :=
    ⟨List.prefix_refl l, h.2.1, fun m isString starts => h.2.2 m isString (starts.trans h.1)⟩
  obtain ⟨rest, tail, rfl, read, same⟩ := leads_string_iff.mp alone
  obtain rfl := (List.cons.inj same).2
  exact ⟨rest, rfl, read⟩

/-- What comes of a string at a place of a text: a literal of all that it writes, or a fault inside of
it that is reported at its place. -/
inductive DecodesAt (source : Text) (p : Nat) (l : Text) : Prop
  | literal {tail t : Text} : l = .scalar '"' :: tail →
      Json.readBody 0 tail = .ok (t, tail.length) →
      (∀ limit, Json.read limit l = .ok (.string t)) →
      stringLiteral ⟨p, l⟩ = .ok (.ofValue (.str t)) → DecodesAt source p l
  | fault {fault : Json.Fault} {place : Position} :
      fault.cause.message ∈ (["Invalid control character at", "Invalid \\escape",
        "Invalid \\uXXXX escape"] : List Text) →
      (∀ limit, Json.read limit l = .error (.malformed fault)) →
      stringLiteral ⟨p, l⟩ = .error (.faulty ⟨.badString l fault, p⟩) →
      Position.After (source.take p) place →
      Fault.span source ⟨.badString l fault, p⟩ = .ofPosition none place → DecodesAt source p l

theorem decodesAt_of_leads (h : (Token.string l).Leads (source.drop p)) : DecodesAt source p l := by
  obtain ⟨tail, rfl, alone⟩ := leads_string_alone h
  have decoded := decoded_readBody (n := 0) alone
  cases found : Json.readBody 0 tail with
  | ok r =>
    rw [found] at decoded
    cases decoded with
    | whole t =>
      have read := Json.read_of_readBody found
      exact .literal rfl found read (by rw [stringLiteral, Json.readString, read])
  | error fault =>
    rw [found] at decoded
    cases decoded with
    | inside among =>
      have read := Json.read_of_readBody_error found
      refine .fault ?_ read (by rw [stringLiteral, Json.readString, read])
        (Position.after_ofOffset source p) (span_eq ..)
      exact List.mem_map_of_mem (f := Json.BodyFault.Cause.message) among

/-- The pattern for strings and the scanner find the same string at a place, the shortest one there. It
is decoded to its end or has a fault inside of it. -/
theorem string_ends_where_decoded (source : Text) (p : Nat) (l : Text) :
    (stringPattern.find? source p = some l ↔ IsString l ∧ l <+: source.drop p ∧
      ∀ m, IsString m → m <+: source.drop p → l.length ≤ m.length) ∧
    (stringPattern.find? source p = some l ↔ token? (source.drop p) = some (.string l)) ∧
    (stringPattern.find? source p = some l → DecodesAt source p l) := by
  rw [token?_eq_some_iff, find?_stringPattern]
  exact ⟨and_left_comm, Iff.rfl, decodesAt_of_leads⟩

/-- A string with an escaped quote inside and paired backslashes at its end, and one with an unknown
escape. -/
theorem string_ends_where_decoded_escapes :
    let source : Text := "Literal[\"\\\"\\\\\", \"\\q\"]"
    let good : Text := "\"\\\"\\\\\""
    let bad : Text := "\"\\q\""
    (stringPattern.find? source 8 = some good ∧ DecodesAt source 8 good ∧
      Json.readString good = .ok "\"\\") ∧
    stringPattern.find? source 16 = some bad ∧ DecodesAt source 16 bad ∧
      Json.readString bad = .error ⟨.body .badEscape, 1⟩ := by
  intro source good bad
  obtain ⟨-, first, decoded⟩ := string_ends_where_decoded source 8 good
  obtain ⟨-, second, refused⟩ := string_ends_where_decoded source 16 bad
  have found := first.mpr rfl
  have next := second.mpr rfl
  exact ⟨⟨found, decoded found, by decide +kernel⟩, next, refused next, by decide +kernel⟩

end TypeLedger.Expr
