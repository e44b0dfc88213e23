import TypeLedger.Text.Basic
import Mathlib.Data.List.Infix

/-! Patterns for what stands at a place of a text. A pattern may match in several ways, which are tried in
an order, and it matches what is tried first. -/
namespace TypeLedger.Text

inductive Pattern
  /-- One code point of a kind. -/
  | one (accepts : CodePoint → Bool)
  /-- Nothing, anywhere but right after the code point. -/
  | notAfter (c : CodePoint)
  | seq (p q : Pattern)
  /-- Any number of repetitions, as few as will do. -/
  | few (p : Pattern)

namespace Pattern

/-- What the pattern may match at the start of a text that stands after `before`, in the order in which
it is tried. What comes later in a pattern is tried in all ways before what comes earlier is tried in
another way. A repetition has to take something. -/
def candidates (p : Pattern) (before t : Text) : List Text :=
  match p with
  | one accepts =>
    match t with
    | [] => []
    | c :: _ => if accepts c then [[c]] else []
  | notAfter c => if before.getLast? = some c then [] else [[]]
  | seq p q =>
    (p.candidates before t).flatMap fun m =>
      (q.candidates (before ++ m) (t.drop m.length)).map (m ++ ·)
  | few p =>
    [] :: (p.candidates before t).flatMap fun m =>
      if (t.drop m.length).length < t.length then
        ((few p).candidates (before ++ m) (t.drop m.length)).map (m ++ ·)
      else []
termination_by (p, t.length)
decreasing_by
  · exact .left _ _ (by simp only [seq.sizeOf_spec]; omega)
  · exact .left _ _ (by simp only [seq.sizeOf_spec]; omega)
  · exact .right _ ‹_›
  · exact .left _ _ (by simp only [few.sizeOf_spec]; omega)

/-- What the pattern matches at a place of a text. -/
def find? (p : Pattern) (source : Text) (place : Nat) : Option Text :=
  (p.candidates (source.take place) (source.drop place)).head?

variable {p q : Pattern} {accepts : CodePoint → Bool} {c : CodePoint} {before t m x y : Text}

theorem append_prefix_iff (h : x <+: t) : x ++ y <+: t ↔ y <+: t.drop x.length := by
  obtain ⟨r, rfl⟩ := h
  rw [List.drop_left, List.prefix_append_right_inj]

theorem mem_notAfter :
    m ∈ (notAfter c).candidates before t ↔ before.getLast? ≠ some c ∧ m = [] := by
  rw [candidates]
  split <;> simp_all

theorem mem_seq : m ∈ (seq p q).candidates before t ↔ ∃ x ∈ p.candidates before t,
    ∃ y ∈ q.candidates (before ++ x) (t.drop x.length), m = x ++ y := by
  rw [candidates]
  simp [eq_comm]

theorem prefix_of_mem (h : m ∈ p.candidates before t) : m <+: t := by
  fun_induction candidates p before t generalizing m with
  | case1 => cases h
  | case2 => simp_all
  | case3 => cases h
  | case4 => cases h
  | case5 => simp_all
  | case6 before t p q later first =>
    obtain ⟨x, mem, h⟩ := List.mem_flatMap.mp h
    obtain ⟨y, more, rfl⟩ := List.mem_map.mp h
    exact (append_prefix_iff (first mem)).mpr (later x more)
  | case7 before t p later first =>
    rcases List.mem_cons.mp h with rfl | h
    · exact List.nil_prefix
    obtain ⟨x, mem, h⟩ := List.mem_flatMap.mp h
    split at h
    next takes =>
      obtain ⟨y, more, rfl⟩ := List.mem_map.mp h
      exact (append_prefix_iff (first mem)).mpr (later x takes more)
    next => cases h

theorem length_drop_lt_iff (h : x <+: t) : (t.drop x.length).length < t.length ↔ x ≠ [] := by
  have := h.length_le
  rw [List.length_drop, ← List.length_pos_iff]
  omega

theorem mem_few : m ∈ (few p).candidates before t ↔ m = [] ∨ ∃ x ∈ p.candidates before t,
    x ≠ [] ∧ ∃ y ∈ (few p).candidates (before ++ x) (t.drop x.length), m = x ++ y := by
  rw [candidates, List.mem_cons, List.mem_flatMap]
  refine or_congr_right ⟨?_, ?_⟩
  · rintro ⟨x, mem, h⟩
    split at h
    next takes =>
      obtain ⟨y, more, rfl⟩ := List.mem_map.mp h
      exact ⟨x, mem, (length_drop_lt_iff (prefix_of_mem mem)).mp takes, y, more, rfl⟩
    next => cases h
  · rintro ⟨x, mem, some, y, more, rfl⟩
    refine ⟨x, mem, ?_⟩
    rw [if_pos ((length_drop_lt_iff (prefix_of_mem mem)).mpr some)]
    exact List.mem_map_of_mem more

/-- The pattern may match all that has the property, whatever stands before it. -/
def Takes (p : Pattern) (P : Text → Prop) : Prop :=
  ∀ ⦃before t m : Text⦄, m ∈ p.candidates before t ↔ P m ∧ m <+: t

variable {P Q : Text → Prop}

theorem Takes.congr (takes : p.Takes P) (same : ∀ m, P m ↔ Q m) : p.Takes Q := by
  intro before t m
  rw [takes, same]

theorem takes_one (accepts : CodePoint → Bool) :
    (one accepts).Takes fun m => ∃ c, accepts c = true ∧ m = [c] := by
  intro before t m
  cases t with
  | nil =>
    rw [candidates]
    constructor
    · nofun
    · rintro ⟨⟨c, -, rfl⟩, starts⟩
      exact absurd (List.prefix_nil.mp starts) (List.cons_ne_nil _ _)
  | cons d t =>
    rw [candidates]
    constructor
    · intro h
      split at h
      next accepted =>
        obtain rfl := List.mem_singleton.mp h
        exact ⟨⟨d, accepted, rfl⟩, List.prefix_append [d] t⟩
      next => cases h
    · rintro ⟨⟨c, accepted, rfl⟩, starts⟩
      obtain ⟨rfl, -⟩ := List.cons_prefix_cons.mp starts
      rw [if_pos accepted]
      exact List.mem_singleton_self _

theorem Takes.seq (first : p.Takes P) (later : q.Takes Q) :
    (Pattern.seq p q).Takes fun m => ∃ x y, P x ∧ Q y ∧ m = x ++ y := by
  intro before t m
  rw [mem_seq]
  constructor
  · rintro ⟨x, taken, y, more, rfl⟩
    obtain ⟨hx, starts⟩ := first.mp taken
    obtain ⟨hy, rest⟩ := later.mp more
    exact ⟨⟨x, y, hx, hy, rfl⟩, (append_prefix_iff starts).mpr rest⟩
  · rintro ⟨⟨x, y, hx, hy, rfl⟩, whole⟩
    have starts : x <+: t := (List.prefix_append _ _).trans whole
    exact ⟨x, first.mpr ⟨hx, starts⟩, y, later.mpr ⟨hy, (append_prefix_iff starts).mp whole⟩, rfl⟩

/-- Repetitions are parts one after the other, none of which is empty. -/
theorem Takes.few (takes : p.Takes P) :
    (Pattern.few p).Takes fun m => ∃ parts : List Text, (∀ x ∈ parts, P x ∧ x ≠ []) ∧ m = parts.flatten := by
  intro before t m
  refine ⟨fun h => ⟨?_, prefix_of_mem h⟩, ?_⟩
  · induction size : m.length using Nat.strong_induction_on generalizing before t m with
    | _ n ih =>
      rcases mem_few.mp h with rfl | ⟨x, taken, some, y, more, rfl⟩
      · exact ⟨[], List.forall_mem_nil _, rfl⟩
      · have shorter : y.length < n := by
          have := List.length_pos_iff.mpr some
          rw [← size, List.length_append]
          omega
        obtain ⟨parts, all, rfl⟩ := ih _ shorter more rfl
        exact ⟨x :: parts, List.forall_mem_cons.mpr ⟨⟨(takes.mp taken).1, some⟩, all⟩, rfl⟩
  · rintro ⟨⟨parts, all, rfl⟩, whole⟩
    induction parts generalizing before t with
    | nil => exact mem_few.mpr (.inl rfl)
    | cons x parts ih =>
      obtain ⟨⟨hx, some⟩, others⟩ := List.forall_mem_cons.mp all
      have starts : x <+: t := (List.prefix_append _ _).trans whole
      exact mem_few.mpr (.inr ⟨x, takes.mpr ⟨hx, starts⟩, some, _,
        ih others ((append_prefix_iff starts).mp whole), rfl⟩)

theorem takes_few_one (accepts : CodePoint → Bool) :
    (Pattern.few (one accepts)).Takes fun m => ∀ c ∈ m, accepts c = true := by
  refine (takes_one accepts).few.congr fun m => ⟨?_, fun all => ?_⟩
  · rintro ⟨parts, each, rfl⟩ c mem
    obtain ⟨x, part, inside⟩ := List.mem_flatten.mp mem
    obtain ⟨⟨d, accepted, rfl⟩, -⟩ := each x part
    exact List.mem_singleton.mp inside ▸ accepted
  · refine ⟨m.map ([·]), fun x mem => ?_, List.flatMap_singleton' m |>.symm⟩
    obtain ⟨c, inside, rfl⟩ := List.mem_map.mp mem
    exact ⟨⟨c, all c inside, rfl⟩, List.cons_ne_nil _ _⟩

/-- Repetitions of a pattern that matches nothing but one text. -/
theorem takes_few_of_eq {w : Text} (takes : p.Takes (· = w)) (some : w ≠ []) :
    (Pattern.few p).Takes fun m => ∃ k, m = (List.replicate k w).flatten := by
  refine takes.few.congr fun m => ⟨?_, ?_⟩
  · rintro ⟨parts, each, rfl⟩
    exact ⟨parts.length, congrArg _ (List.eq_replicate_of_mem fun x mem => (each x mem).1)⟩
  · rintro ⟨k, rfl⟩
    refine ⟨_, fun x mem => ?_, rfl⟩
    obtain rfl := List.eq_of_mem_replicate mem
    exact ⟨rfl, some⟩

/-- What is tried later takes more. -/
def Increasing (texts : List Text) : Prop := texts.Pairwise fun l m => l.length < m.length

theorem Increasing.head?_le {texts : List Text} (increasing : Increasing texts)
    (first : texts.head? = some x) (mem : m ∈ texts) : x.length ≤ m.length := by
  obtain ⟨rest, rfl⟩ := List.head?_eq_some_iff.mp first
  rcases List.mem_cons.mp mem with rfl | mem
  · exact Nat.le_refl _
  · exact (List.rel_of_pairwise_cons increasing mem).le

/-- The pattern matches in one way at most. -/
def Single (p : Pattern) : Prop := ∀ before t, (p.candidates before t).length ≤ 1

theorem pairwise_of_single (single : p.Single) (R : Text → Text → Prop) :
    (p.candidates before t).Pairwise R := by
  have few := single before t
  generalize p.candidates before t = texts at few
  match texts, few with
  | [], _ => exact .nil
  | [_], _ => exact List.pairwise_singleton ..

theorem single_one (accepts : CodePoint → Bool) : (one accepts).Single := by
  intro before t
  cases t with
  | nil => simp [candidates]
  | cons c t =>
    rw [candidates]
    split <;> simp

theorem single_notAfter (c : CodePoint) : (notAfter c).Single := by
  intro before t
  rw [candidates]
  split <;> simp

theorem single_seq (first : p.Single) (later : q.Single) : (seq p q).Single := by
  intro before t
  have few := first before t
  rw [candidates]
  generalize p.candidates before t = texts at few
  match texts, few with
  | [], _ => simp
  | [x], _ => simpa using later (before ++ x) (t.drop x.length)

theorem increasing_few (single : p.Single) : Increasing ((few p).candidates before t) := by
  induction size : t.length using Nat.strong_induction_on generalizing before t with
  | _ n ih =>
    subst size
    rw [candidates]
    refine List.pairwise_cons.mpr ⟨fun m mem => ?_, List.pairwise_flatMap.mpr ⟨fun x mem => ?_, ?_⟩⟩
    · obtain ⟨x, taken, h⟩ := List.mem_flatMap.mp mem
      split at h
      next takes =>
        obtain ⟨y, -, rfl⟩ := List.mem_map.mp h
        have some := (length_drop_lt_iff (prefix_of_mem taken)).mp takes
        simpa using List.length_pos_iff.mpr (List.append_ne_nil_of_left_ne_nil some y)
      next => cases h
    · split
      next takes =>
        refine List.pairwise_map.mpr ((ih _ takes rfl).imp fun less => ?_)
        rw [List.length_append, List.length_append]
        exact Nat.add_lt_add_left less _
      next => exact .nil
    · exact pairwise_of_single single _

theorem increasing_seq (first : Increasing (p.candidates before t))
    (later : ∀ x ∈ p.candidates before t,
      Increasing (q.candidates (before ++ x) (t.drop x.length)))
    (apart : ∀ x ∈ p.candidates before t, ∀ y ∈ p.candidates before t, x.length < y.length →
      ∀ u ∈ q.candidates (before ++ x) (t.drop x.length),
        ∀ v ∈ q.candidates (before ++ y) (t.drop y.length), (x ++ u).length < (y ++ v).length) :
    Increasing ((seq p q).candidates before t) := by
  rw [candidates]
  refine List.pairwise_flatMap.mpr ⟨fun x mem => ?_, ?_⟩
  · refine List.pairwise_map.mpr ((later x mem).imp fun less => ?_)
    rw [List.length_append, List.length_append]
    exact Nat.add_lt_add_left less _
  · refine first.imp_of_mem fun {x y} hx hy less l hl m hm => ?_
    obtain ⟨u, hu, rfl⟩ := List.mem_map.mp hl
    obtain ⟨v, hv, rfl⟩ := List.mem_map.mp hm
    exact apart x hx y hy less u hu v hv

/-- The shortest text is matched of those that the pattern may match, if it tries them in order. -/
theorem Takes.find?_eq_some_iff {source : Text} {place : Nat} (takes : p.Takes P)
    (increasing : ∀ before t, Increasing (p.candidates before t)) :
    p.find? source place = some m ↔ P m ∧ m <+: source.drop place ∧
      ∀ l, P l → l <+: source.drop place → m.length ≤ l.length := by
  rw [find?]
  constructor
  · intro found
    obtain ⟨hm, starts⟩ := takes.mp (List.mem_of_head? found)
    exact ⟨hm, starts, fun l hl begins => (increasing _ _).head?_le found (takes.mpr ⟨hl, begins⟩)⟩
  · rintro ⟨hm, starts, shortest⟩
    have mem : m ∈ p.candidates (source.take place) (source.drop place) := takes.mpr ⟨hm, starts⟩
    obtain ⟨first, found⟩ :=
      Option.isSome_iff_exists.mp (List.isSome_head?.mpr (List.ne_nil_of_mem mem))
    obtain ⟨hf, begins⟩ := takes.mp (List.mem_of_head? found)
    have same : first.length = m.length :=
      ((increasing _ _).head?_le found mem).antisymm (shortest first hf begins)
    rw [found, (List.prefix_of_prefix_length_le begins starts same.le).eq_of_length same]

end Pattern
end TypeLedger.Text
