import Mathlib.Data.List.Forall2

/-! Results that may be errors: when a function of a result, or one result for each item of a list,
is no error. -/
namespace TypeLedger

variable {α β ε ε' : Type}

theorem map_eq_ok_iff {f : α → β} {x : Except ε α} {y : β} :
    f <$> x = .ok y ↔ ∃ a, x = .ok a ∧ f a = y := by
  cases x <;> simp [Functor.map, Except.map]

theorem map_eq_error_iff {f : α → β} {x : Except ε α} {e : ε} :
    f <$> x = .error e ↔ x = .error e := by
  cases x <;> simp [Functor.map, Except.map]

/-- A result is no error when a part of it is found. -/
theorem exists_of_toOption {f : α → β} {x : Except ε α} {y : β}
    (h : x.toOption.map f = some y) : ∃ a, x = .ok a ∧ f a = y := by
  cases x with
  | error => cases h
  | ok a => exact ⟨a, rfl, Option.some.inj h⟩

theorem exists_forall₂ {R : α → β → Prop} {xs : List α} (h : ∀ x ∈ xs, ∃ y, R x y) :
    ∃ ys, List.Forall₂ R xs ys := by
  induction xs with
  | nil => exact ⟨[], .nil⟩
  | cons x xs ih =>
    obtain ⟨first, rest⟩ := List.forall_mem_cons.mp h
    obtain ⟨y, hy⟩ := first
    obtain ⟨ys, hys⟩ := ih rest
    exact ⟨y :: ys, .cons hy hys⟩

/-- A property that each item gives to its result. -/
theorem forall_of_forall₂ {R : α → β → Prop} {P : β → Prop} {xs : List α} {ys : List β}
    (h : List.Forall₂ R xs ys) (each : ∀ x ∈ xs, ∀ y, R x y → P y) : ∀ y ∈ ys, P y := by
  induction h with
  | nil => exact List.forall_mem_nil _
  | cons first _ ih =>
    obtain ⟨one, others⟩ := List.forall_mem_cons.mp each
    exact List.forall_mem_cons.mpr ⟨one _ first, ih others⟩

/-- A function that takes the items of a list in order, up to the first error. -/
theorem each_eq_ok_iff {f : α → Except ε β} {g : List α → Except ε (List β)} {R : α → β → Prop}
    {xs : List α} {ys : List β} (nil : g [] = .ok [])
    (cons : ∀ x xs, g (x :: xs) = do let y ← f x; let ys ← g xs; return y :: ys)
    (h : ∀ x ∈ xs, ∀ y, f x = .ok y ↔ R x y) : g xs = .ok ys ↔ List.Forall₂ R xs ys := by
  induction xs generalizing ys with
  | nil => cases ys <;> simp [nil]
  | cons x xs ih =>
    obtain ⟨first, rest⟩ := List.forall_mem_cons.mp h
    rw [cons, List.forall₂_cons_left_iff]
    simp only [← ih rest, ← first]
    cases f x with
    | error => simp [bind, Except.bind]
    | ok y => cases g xs <;> simp [bind, Except.bind, pure, Except.pure, eq_comm]

/-- Such a function fails as it does for one item, when the items before that one give results. -/
theorem each_eq_error_iff {f : α → Except ε β} {g : List α → Except ε (List β)} {R : α → β → Prop}
    {S : α → Prop} {xs : List α} {e : ε} (nil : g [] = .ok [])
    (cons : ∀ x xs, g (x :: xs) = do let y ← f x; let ys ← g xs; return y :: ys)
    (result : ∀ x ∈ xs, ∀ y, f x = .ok y ↔ R x y) (error : ∀ x ∈ xs, f x = .error e ↔ S x) :
    g xs = .error e ↔
      ∃ before x after, xs = before ++ x :: after ∧ (∀ w ∈ before, ∃ y, R w y) ∧ S x := by
  induction xs with
  | nil => simp [nil]
  | cons x xs ih =>
    obtain ⟨found, results⟩ := List.forall_mem_cons.mp result
    obtain ⟨fails, errors⟩ := List.forall_mem_cons.mp error
    have split : (∃ before w after, x :: xs = before ++ w :: after ∧ (∀ w ∈ before, ∃ y, R w y) ∧ S w)
        ↔ S x ∨ (∃ y, R x y) ∧ g xs = .error e := by
      rw [ih results errors]
      constructor
      · rintro ⟨_ | ⟨b, before⟩, w, after, same, each, last⟩
        · cases same
          exact .inl last
        · cases same
          obtain ⟨first, others⟩ := List.forall_mem_cons.mp each
          exact .inr ⟨first, before, w, after, rfl, others, last⟩
      · rintro (first | ⟨first, before, w, after, rfl, others, last⟩)
        · exact ⟨[], x, xs, rfl, List.forall_mem_nil _, first⟩
        · exact ⟨x :: before, w, after, rfl, List.forall_mem_cons.mpr ⟨first, others⟩, last⟩
    rw [cons, split, ← fails]
    simp only [← found]
    cases f x with
    | error => simp [bind, Except.bind]
    | ok y => cases g xs <;> simp [bind, Except.bind, pure, Except.pure]

theorem exists_of_each_eq_error {f : α → Except ε β} {g : List α → Except ε (List β)}
    {xs : List α} {e : ε} (nil : g [] = .ok [])
    (cons : ∀ x xs, g (x :: xs) = do let y ← f x; let ys ← g xs; return y :: ys)
    (h : g xs = .error e) : ∃ x ∈ xs, f x = .error e := by
  obtain ⟨before, x, after, rfl, -, fails⟩ :=
    (each_eq_error_iff nil cons (fun _ _ _ => Iff.rfl) fun _ _ => Iff.rfl).mp h
  exact ⟨x, by simp, fails⟩

theorem ne_nil_of_each_eq_ok {f : α → Except ε β} {g : List α → Except ε (List β)} {x : α}
    {xs : List α} {ys : List β} (cons : g (x :: xs) = do let y ← f x; let ys ← g xs; return y :: ys)
    (h : g (x :: xs) = .ok ys) : ys ≠ [] := by
  rintro rfl
  rw [cons] at h
  cases first : f x with
  | error =>
    rw [first] at h
    cases h
  | ok =>
    cases others : g xs <;>
    · rw [first, others] at h
      cases h

/-- Functions that take items in order and differ in nothing but their errors. -/
theorem each_eq_mapError {f : α → Except ε β} {f' : α → Except ε' β}
    {g : List α → Except ε (List β)} {g' : List α → Except ε' (List β)} {w : ε → ε'} {xs : List α}
    (nil : g [] = .ok []) (nil' : g' [] = .ok [])
    (cons : ∀ x xs, g (x :: xs) = do let y ← f x; let ys ← g xs; return y :: ys)
    (cons' : ∀ x xs, g' (x :: xs) = do let y ← f' x; let ys ← g' xs; return y :: ys)
    (h : ∀ x ∈ xs, f' x = (f x).mapError w) : g' xs = (g xs).mapError w := by
  induction xs with
  | nil =>
    rw [nil, nil']
    rfl
  | cons x xs ih =>
    obtain ⟨first, rest⟩ := List.forall_mem_cons.mp h
    rw [cons, cons', first, ih rest]
    cases f x with
    | error => rfl
    | ok => cases g xs <;> rfl

end TypeLedger
