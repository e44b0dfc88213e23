import TypeLedger.Expr.Token
import Mathlib.Data.List.Induction
import Mathlib.Data.List.Infix

/-! The spelling of tokens, told apart from their scanning: names and numerals are read as far as
they go, and strings up to the first quote that can end them. -/
namespace TypeLedger.Expr

variable {c : CodePoint} {l t body digits rest : Text} {escaped : Bool}

/-- Words with points between them. -/
inductive IsName : Text → Prop
  | word {c cs} : startsName c = true → (∀ d ∈ cs, continuesName d = true) → IsName (c :: cs)
  | dotted {c cs rest} : startsName c = true → (∀ d ∈ cs, continuesName d = true) → IsName rest →
      IsName (c :: (cs ++ .scalar '.' :: rest))

def IsSign (l : Text) : Prop := l = [] ∨ l = [.scalar '+'] ∨ l = [.scalar '-']

def IsInt (l : Text) : Prop :=
  ∃ sign digits, l = sign ++ digits ∧ IsSign sign ∧ digits ≠ [] ∧
    ∀ d ∈ digits, Numeral.isDigit d = true

def backslashesAtEnd (t : Text) : Nat := (t.reverse.takeWhile (· = .scalar '\\')).length

/-- On one line, between quotes of which the last has an even number of backslashes before it. -/
def IsString (l : Text) : Prop :=
  ∃ body, l = .scalar '"' :: (body ++ [.scalar '"']) ∧ .scalar '\n' ∉ body ∧
    backslashesAtEnd body % 2 = 0

/-- The token is the one that a text starts with. -/
def Token.Leads (tok : Token) (t : Text) : Prop :=
  tok.lexeme <+: t ∧
  match tok with
  | .name l => IsName l ∧ ∀ m, IsName m → m <+: t → m.length ≤ l.length
  | .int l => IsInt l ∧ ∀ m, IsInt m → m <+: t → m.length ≤ l.length
  | .string l => IsString l ∧ ∀ m, IsString m → m <+: t → l.length ≤ m.length
  | _ => True

theorem continuesName_of_startsName (h : startsName c = true) : continuesName c = true := by
  simp [continuesName, h]

theorem startsName_of_isDigit (h : Numeral.isDigit c = true) : startsName c = false := by
  cases c with
  | scalar c =>
    simp only [Numeral.isDigit, Char.isDigit, Bool.and_eq_true, decide_eq_true_eq] at h
    have low : c.val ≤ 57 := h.2
    have notUnderscore : c ≠ '_' := by
      rintro rfl
      exact absurd low (by decide)
    have notUpper : c.isUpper = false := by
      rw [Bool.eq_false_iff]
      intro upper
      obtain ⟨first, _⟩ := of_decide_eq_true upper
      exact absurd (UInt32.le_trans first low) (by decide)
    have notLower : c.isLower = false := by
      rw [Bool.eq_false_iff]
      intro lower
      have first := of_decide_eq_true (Bool.and_eq_true_iff.mp lower).1
      exact absurd (UInt32.le_trans first low) (by decide)
    change (c.isUpper || c.isLower || decide (c = '_')) = false
    rw [notUpper, notLower, decide_eq_false notUnderscore]
    rfl
  | _ => rfl

theorem nameTail_prefix (t : Text) : nameTail t <+: t := by
  induction t with
  | nil => exact List.prefix_refl _
  | cons c rest ih =>
    rw [nameTail]
    split
    · exact List.cons_prefix_cons.mpr ⟨rfl, ih⟩
    · split
      · exact List.cons_prefix_cons.mpr ⟨rfl, ih⟩
      · exact List.nil_prefix

theorem nameTail_append (h : nameTail l = l) (r : Text) : nameTail (l ++ r) = l ++ nameTail r := by
  induction l with
  | nil => rfl
  | cons c l ih =>
    rw [nameTail] at h
    rw [List.cons_append, nameTail]
    split at h
    · rename_i continues
      rw [if_pos continues, ih (List.cons.inj h).2, List.cons_append]
    · split at h
      · rename_i continues point
        have next : (l ++ r).head?.any startsName = true := by
          cases l with
          | nil => simp at point
          | cons d l => exact point.2
        rw [if_neg continues, if_pos ⟨point.1, next⟩, ih (List.cons.inj h).2, List.cons_append]
      · cases h

theorem nameTail_nameTail (t : Text) : nameTail (nameTail t) = nameTail t := by
  induction t with
  | nil => rfl
  | cons c rest ih =>
    rw [nameTail]
    split
    · rename_i continues
      rw [nameTail, if_pos continues, ih]
    · split
      · rename_i continues point
        have next : (nameTail rest).head?.any startsName = true := by
          cases rest with
          | nil => simp at point
          | cons d rest =>
            have starts : startsName d = true := by simpa using point.2
            rw [nameTail, if_pos (continuesName_of_startsName starts)]
            simpa using starts
        rw [nameTail, if_neg continues, if_pos ⟨point.1, next⟩, ih]
      · rfl

theorem nameTail_of_continues (h : ∀ d ∈ l, continuesName d = true) : nameTail l = l := by
  induction l with
  | nil => rfl
  | cons d l ih =>
    have ⟨first, rest⟩ := List.forall_mem_cons.mp h
    rw [nameTail, if_pos first, ih rest]

theorem IsName.starts (h : IsName l) :
    ∃ c tail, l = c :: tail ∧ startsName c = true ∧ nameTail tail = tail := by
  induction h with
  | word first all => exact ⟨_, _, rfl, first, nameTail_of_continues all⟩
  | @dotted c cs rest first all _ ih =>
    refine ⟨_, _, rfl, first, ?_⟩
    obtain ⟨d, tail, rfl, next, fixed⟩ := ih
    have continues := continuesName_of_startsName next
    have point : continuesName (.scalar '.') = false := by decide
    rw [nameTail_append (nameTail_of_continues all), nameTail, if_neg (by simp [point]),
      if_pos ⟨rfl, by simpa using next⟩, nameTail, if_pos continues, fixed]

theorem IsName.insert {d : CodePoint} (h : IsName (c :: l)) (hd : continuesName d = true) :
    IsName (c :: d :: l) := by
  cases h with
  | word first all => exact .word first (List.forall_mem_cons.mpr ⟨hd, all⟩)
  | @dotted _ cs _ first all later =>
    have longer : ∀ e ∈ d :: cs, continuesName e = true := List.forall_mem_cons.mpr ⟨hd, all⟩
    exact IsName.dotted first longer later

/-- Where no name goes on there are no digits. -/
theorem takeWhile_isDigit_stop (stop : nameTail rest = []) :
    rest.takeWhile Numeral.isDigit = [] := by
  cases rest with
  | nil => rfl
  | cons c rest =>
    apply List.takeWhile_cons_of_neg
    intro digit
    rw [nameTail, if_pos (by simp [continuesName, digit])] at stop
    cases stop

/-- The names are the letters with what the scanner reads as their continuation. In the second part
the first code point is itself the letter after a point. -/
theorem isName_of_nameTail (h : nameTail l = l) :
    (∀ c, startsName c = true → IsName (c :: l)) ∧
      (l.head?.any startsName = true → IsName l) := by
  induction l with
  | nil => exact ⟨fun c hc => .word hc (by simp), by simp⟩
  | cons d l ih =>
    rw [nameTail] at h
    split at h
    · rename_i continues
      obtain ⟨after, _⟩ := ih (List.cons.inj h).2
      constructor
      · intro c hc
        exact (after c hc).insert continues
      · intro hd
        exact after d (by simpa using hd)
    · split at h
      · rename_i continues point
        obtain ⟨_, next⟩ := ih (List.cons.inj h).2
        obtain ⟨rfl, starts⟩ := point
        have point : startsName (.scalar '.') = false := by decide
        constructor
        · intro c hc
          exact IsName.dotted hc (List.forall_mem_nil _) (next starts)
        · intro hd
          simp [point] at hd
      · cases h

theorem isName_cons_iff : IsName (c :: l) ↔ startsName c = true ∧ nameTail l = l := by
  constructor
  · intro h
    obtain ⟨_, _, same, first, fixed⟩ := h.starts
    obtain ⟨rfl, rfl⟩ := List.cons.inj same
    exact ⟨first, fixed⟩
  · rintro ⟨first, fixed⟩
    exact (isName_of_nameTail fixed).1 c first

theorem leads_name_iff : (Token.name l).Leads t ↔
    ∃ c rest, t = c :: rest ∧ startsName c = true ∧ l = c :: nameTail rest := by
  constructor
  · rintro ⟨starts, name, longest⟩
    obtain ⟨c, tail, rfl, first, fixed⟩ := IsName.starts name
    obtain ⟨r, rfl⟩ := starts
    refine ⟨c, tail ++ r, rfl, first, ?_⟩
    have scanned := nameTail_append fixed r
    have bound := longest (c :: nameTail (tail ++ r))
      (isName_cons_iff.mpr ⟨first, nameTail_nameTail _⟩)
      (List.cons_prefix_cons.mpr ⟨rfl, nameTail_prefix _⟩)
    have empty : nameTail r = [] := by
      rw [scanned, List.length_cons, List.length_cons, List.length_append] at bound
      exact List.eq_nil_of_length_eq_zero (by omega)
    rw [scanned, empty, List.append_nil]
  · rintro ⟨c, rest, rfl, first, rfl⟩
    refine ⟨List.cons_prefix_cons.mpr ⟨rfl, nameTail_prefix rest⟩,
      isName_cons_iff.mpr ⟨first, nameTail_nameTail rest⟩, ?_⟩
    intro m name starts
    obtain ⟨d, tail, rfl, _, fixed⟩ := name.starts
    obtain ⟨_, r, rfl⟩ := List.cons_prefix_cons.mp starts
    rw [nameTail_append fixed]
    simp

/-- The sign at the start of a text. -/
def sign : Text → Text
  | .scalar '+' :: _ => [.scalar '+']
  | .scalar '-' :: _ => [.scalar '-']
  | _ => []

theorem int?_eq (t : Text) : int? t =
    match (t.drop (sign t).length).takeWhile Numeral.isDigit with
    | [] => none
    | digits => some (sign t ++ digits) := rfl

theorem isSign_sign (t : Text) : IsSign (sign t) ∧ sign t <+: t := by
  unfold sign
  split
  · exact ⟨.inr (.inl rfl), by simp⟩
  · exact ⟨.inr (.inr rfl), by simp⟩
  · exact ⟨.inl rfl, List.nil_prefix⟩

theorem sign_append {s : Text} (hs : IsSign s) (some : digits ≠ [])
    (all : ∀ d ∈ digits, Numeral.isDigit d = true) (r : Text) : sign (s ++ (digits ++ r)) = s := by
  rcases hs with rfl | rfl | rfl
  · obtain ⟨d, ds, rfl⟩ := List.exists_cons_of_ne_nil some
    have first := all d List.mem_cons_self
    rw [List.nil_append, List.cons_append, sign]
    · intro rest same
      obtain ⟨rfl, _⟩ := List.cons.inj same
      exact absurd first (by decide)
    · intro rest same
      obtain ⟨rfl, _⟩ := List.cons.inj same
      exact absurd first (by decide)
  · rfl
  · rfl

theorem int?_append {s : Text} (hs : IsSign s) (some : digits ≠ [])
    (all : ∀ d ∈ digits, Numeral.isDigit d = true) (r : Text) :
    int? (s ++ (digits ++ r)) = .some (s ++ (digits ++ r.takeWhile Numeral.isDigit)) := by
  rw [int?_eq, sign_append hs some all, List.drop_left, List.takeWhile_append_of_pos all]
  obtain ⟨d, ds, rfl⟩ := List.exists_cons_of_ne_nil some
  rfl

theorem isInt_of_int? (h : int? t = some l) : IsInt l ∧ l <+: t := by
  obtain ⟨isSign, r, text⟩ := isSign_sign t
  rw [int?_eq] at h
  split at h
  · cases h
  · rename_i digits present
    cases h
    generalize sign t = s at *
    subst text
    rw [List.drop_left] at *
    refine ⟨⟨s, _, rfl, isSign, present, List.all_eq_true.mp List.all_takeWhile⟩, ?_⟩
    exact (List.prefix_append_right_inj s).mpr (List.takeWhile_prefix _)

theorem leads_int_iff : (Token.int l).Leads t ↔ int? t = some l := by
  constructor
  · rintro ⟨⟨r, rfl⟩, isInt, longest⟩
    obtain ⟨s, digits, same, hs, some, all⟩ := isInt
    simp only [Token.lexeme] at longest ⊢
    subst same
    rw [List.append_assoc] at longest ⊢
    have scanned := int?_append hs some all r
    obtain ⟨found, starts⟩ := isInt_of_int? scanned
    have bound := longest _ found starts
    have none : r.takeWhile Numeral.isDigit = [] := by
      simp only [List.length_append] at bound
      exact List.eq_nil_of_length_eq_zero (by omega)
    rw [scanned, none, List.append_nil]
  · intro h
    obtain ⟨found, starts⟩ := isInt_of_int? h
    refine ⟨starts, found, ?_⟩
    rintro m ⟨s, digits, rfl, hs, some, all⟩ ⟨r, rfl⟩
    rw [List.append_assoc, int?_append hs some all] at h
    obtain rfl := Option.some.inj h
    simp

/-- Whether the code point after a body is escaped, if `escaped` says so of its first one. -/
def escapedAfter (escaped : Bool) (body : Text) : Bool :=
  body.foldl (fun escaped c => c = .scalar '\\' && !escaped) escaped

theorem escapedAfter_eq (body : Text) :
    escapedAfter false body = decide (backslashesAtEnd body % 2 = 1) := by
  induction body using List.reverseRecOn with
  | nil => rfl
  | append_singleton body c ih =>
    have last : escapedAfter false (body ++ [c]) =
        (decide (c = .scalar '\\') && !escapedAfter false body) := List.foldl_concat ..
    have count : backslashesAtEnd (body ++ [c]) =
        if c = .scalar '\\' then backslashesAtEnd body + 1 else 0 := by
      rw [backslashesAtEnd, List.reverse_concat, List.takeWhile_cons]
      by_cases backslash : c = .scalar '\\' <;> simp [backslash, backslashesAtEnd]
    rw [last, ih, count]
    by_cases backslash : c = .scalar '\\'
    · rw [if_pos backslash, decide_eq_true backslash, Bool.true_and, ← decide_not, decide_eq_decide]
      omega
    · rw [if_neg backslash, decide_eq_false backslash]
      rfl

theorem isString_iff : IsString l ↔ ∃ body, l = .scalar '"' :: (body ++ [.scalar '"']) ∧
    .scalar '\n' ∉ body ∧ escapedAfter false body = false := by
  simp only [IsString, escapedAfter_eq, decide_eq_false_iff_not, Nat.mod_two_ne_one]

theorem stringTail_sound (h : stringTail escaped t = some l) : ∃ body rest,
    l = body ++ [.scalar '"'] ∧ t = body ++ .scalar '"' :: rest ∧ .scalar '\n' ∉ body ∧
      escapedAfter escaped body = false := by
  induction t generalizing escaped l with
  | nil => cases h
  | cons c t ih =>
    rw [stringTail] at h
    split at h
    · cases h
    · rename_i onLine
      split at h
      · rename_i closes
        obtain ⟨rfl, free⟩ := closes
        cases h
        exact ⟨[], t, rfl, rfl, by simp, by simpa [escapedAfter] using free⟩
      · obtain ⟨tail, read, rfl⟩ := Option.map_eq_some_iff.mp h
        obtain ⟨body, rest, rfl, rfl, inside, free⟩ := ih read
        refine ⟨c :: body, rest, rfl, rfl, ?_, free⟩
        exact List.not_mem_cons_of_ne_of_not_mem (fun same => onLine same.symm) inside

/-- A quote that can end the string is not passed over. -/
theorem stringTail_complete (inside : .scalar '\n' ∉ body)
    (free : escapedAfter escaped body = false) (rest : Text) :
    ∃ tail, stringTail escaped (body ++ .scalar '"' :: rest) = some tail ∧
      tail.length ≤ body.length + 1 := by
  induction body generalizing escaped with
  | nil =>
    obtain rfl : escaped = false := free
    exact ⟨[.scalar '"'], by simp [stringTail], by simp⟩
  | cons c body ih =>
    obtain ⟨onLine, inside⟩ := not_or.mp (List.mem_cons.not.mp inside)
    rw [List.cons_append, stringTail, if_neg fun same => onLine same.symm]
    split
    · exact ⟨[c], rfl, by simp⟩
    · obtain ⟨tail, read, bound⟩ := ih inside free
      exact ⟨c :: tail, by rw [read]; rfl, by simpa using bound⟩

theorem leads_string_iff : (Token.string l).Leads t ↔
    ∃ rest tail, t = .scalar '"' :: rest ∧ stringTail false rest = some tail ∧
      l = .scalar '"' :: tail := by
  constructor
  · rintro ⟨⟨r, rfl⟩, isString, shortest⟩
    obtain ⟨body, same, inside, free⟩ := isString_iff.mp isString
    simp only [Token.lexeme] at shortest ⊢
    subst same
    obtain ⟨tail, read, bound⟩ := stringTail_complete inside free r
    obtain ⟨found, rest, rfl, text, foundInside, foundFree⟩ := stringTail_sound read
    refine ⟨body ++ .scalar '"' :: r, _, by simp, read, ?_⟩
    have first := shortest (.scalar '"' :: (found ++ [.scalar '"']))
      (isString_iff.mpr ⟨found, rfl, foundInside, foundFree⟩) ⟨rest, by simp [text]⟩
    have starts : body <+: body ++ .scalar '"' :: r := List.prefix_append ..
    have foundStarts : found <+: body ++ .scalar '"' :: r := ⟨_, text.symm⟩
    have lengths : body.length = found.length := by
      simp only [List.length_cons, List.length_append, List.length_nil] at first bound
      omega
    rw [(List.prefix_of_prefix_length_le starts foundStarts lengths.le).eq_of_length lengths]
  · rintro ⟨rest, tail, rfl, read, rfl⟩
    obtain ⟨body, after, rfl, rfl, inside, free⟩ := stringTail_sound read
    refine ⟨⟨after, by simp [Token.lexeme]⟩, isString_iff.mpr ⟨body, rfl, inside, free⟩, ?_⟩
    intro m isString starts
    obtain ⟨other, rfl, otherInside, otherFree⟩ := isString_iff.mp isString
    obtain ⟨r, text⟩ := starts
    have text : body ++ .scalar '"' :: after = other ++ .scalar '"' :: r := by simpa using text.symm
    obtain ⟨found, again, bound⟩ := stringTail_complete otherInside otherFree r
    rw [← text, read] at again
    obtain rfl := Option.some.inj again
    simpa using bound

end TypeLedger.Expr
