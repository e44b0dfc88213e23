import TypeLedger.Proofs.Ty.Canonical

/-! Types in normal form in the order in which they widen. Combining is the join of this order: seen
as the sets of types that belong to them, types that are the same are equal, and a combination is the
union of what it combines. -/
namespace TypeLedger.Ty

variable {className : Text → Prop} {p t a b : Ty} {ts : List Ty}

/-- The first type adds nothing to the second one. -/
def Le (a b : Ty) : Prop := (combine [a, b]).same b = true

instance (a b : Ty) : Decidable (Le a b) := inferInstanceAs (Decidable (_ = true))

/-- The types that belong to a type. The type `Unknown` is taken from all but itself, which tells
`Any` apart from it. -/
def extent (t : Ty) : Set Ty := {p | Belongs p t ∧ (p = unknown → t = unknown)}

theorem unknown_mem_extent : unknown ∈ t.extent ↔ t = unknown := by
  constructor
  · exact fun h => h.2 rfl
  · rintro rfl
    exact ⟨.unknown, fun _ => rfl⟩

theorem extent_never : never.extent = ∅ := by
  ext p
  simp only [Set.mem_empty_iff_false, iff_false]
  rintro ⟨⟨⟩, _⟩

theorem mem_extent_of_ne (h : p ≠ unknown) : p ∈ t.extent ↔ Belongs p t :=
  ⟨And.left, fun belongs => ⟨belongs, fun same => absurd same h⟩⟩

theorem same_unknown_iff : t.same unknown = true ↔ t = unknown := by
  constructor
  · intro h
    cases t <;> first | rfl | cases h
  · rintro rfl
    rfl

theorem extent_eq_of_same (h : a.same b = true) : a.extent = b.extent := by
  ext p
  by_cases mark : p = unknown
  · rw [mark, unknown_mem_extent, unknown_mem_extent, ← same_unknown_iff, ← same_unknown_iff,
      same_congr_left h]
  · rw [mem_extent_of_ne mark, mem_extent_of_ne mark, belongs_iff_of_same h]

theorem isPart_of_same (h : a.same b = true) : a.isPart = b.isPart := by
  cases a <;> cases b <;> simp_all [same, isPart]

theorem Definite.isPart_of_belongs (h : Definite className t) (belongs : Belongs p t) :
    p.isPart = true := by
  obtain ⟨m, mem, belongs⟩ := belongs_iff_parts.mp belongs
  have part := h.parts.2.parts m mem
  rcases belongs.same_or_base part with same | ⟨_, _, rfl, _⟩
  · exact (isPart_of_same same).trans part
  · rfl

/-- `Any` is in no extents but its own and that of `Unknown`, so that it marks what absorbs. -/
theorem Normal.definite (h : Normal className t) (notUnknown : t ≠ Ty.unknown)
    (mark : Ty.any ∉ t.extent) : Definite className t where
  normal := h
  notUnknown := notUnknown
  notAny := by
    rintro rfl
    exact mark ⟨.any, nofun⟩

theorem Normal.eq_any (h : Normal className t) (notUnknown : t ≠ Ty.unknown)
    (mark : Ty.any ∈ t.extent) : t = Ty.any := by
  by_contra notAny
  have part := Definite.isPart_of_belongs ⟨h, notUnknown, notAny⟩ mark.1
  cases part

theorem Normal.same_of_extent_eq (ha : Normal className a) (hb : Normal className b)
    (h : a.extent = b.extent) : a.same b = true := by
  have unknowns : a = Ty.unknown ↔ b = Ty.unknown := by
    rw [← unknown_mem_extent, h, unknown_mem_extent]
  by_cases top : a = Ty.unknown
  · rw [top, unknowns.mp top]
    rfl
  have notTop := mt unknowns.mpr top
  by_cases mark : Ty.any ∈ a.extent
  · rw [ha.eq_any top mark, hb.eq_any notTop (h ▸ mark)]
    rfl
  have definiteA := ha.definite top mark
  have definiteB := hb.definite notTop (h ▸ mark)
  apply definiteA.same_of_meaning_eq definiteB
  ext p
  by_cases isUnknown : p = Ty.unknown
  · -- `Unknown` is no part, so it belongs to neither.
    subst isUnknown
    constructor
    · intro belongs
      cases definiteA.isPart_of_belongs belongs
    · intro belongs
      cases definiteB.isPart_of_belongs belongs
  · exact (mem_extent_of_ne isUnknown).symm.trans (h ▸ mem_extent_of_ne isUnknown)

theorem combine_eq_unknown_iff (normal : ∀ t ∈ ts, Normal className t) :
    combine ts = unknown ↔ unknown ∈ ts := by
  by_cases alone : ts.length = 1
  · obtain ⟨t, rfl⟩ := List.length_eq_one_iff.mp alone
    rw [List.mem_singleton, eq_comm]
    rfl
  constructor
  · intro absorbed
    rcases combine_cases alone with ⟨e, _⟩ | ⟨_, mem⟩ | ⟨e, _⟩ | ⟨e, _, live⟩
    · cases e.symm.trans absorbed
    · exact mem
    · cases e.symm.trans absorbed
    · exact absurd absorbed (definite_of_remain normal live e).notUnknown
  · exact combine_of_unknown alone

theorem extent_combine (normal : ∀ t ∈ ts, Normal className t) :
    (combine ts).extent = ⋃ t ∈ ts, t.extent := by
  ext p
  simp only [Set.mem_iUnion, exists_prop]
  by_cases mark : p = unknown
  · subst mark
    simp only [unknown_mem_extent, combine_eq_unknown_iff normal, exists_eq_right]
  · simp only [mem_extent_of_ne mark]
    exact (Set.ext_iff.mp (Interpretation.generic.meaning_combine ts) p).trans
      Interpretation.generic.mem_all

theorem extent_combine_pair (ha : Normal className a) (hb : Normal className b) :
    (combine [a, b]).extent = a.extent ∪ b.extent := by
  have normal : ∀ t ∈ [a, b], Normal className t := by simp [ha, hb]
  rw [extent_combine normal]
  ext p
  simp

/-- The order is inclusion of extents. -/
theorem Normal.le_iff (ha : Normal className a) (hb : Normal className b) :
    a.Le b ↔ a.extent ⊆ b.extent := by
  have joined := extent_combine_pair ha hb
  constructor
  · intro le
    rw [← extent_eq_of_same le, joined]
    exact Set.subset_union_left
  · intro within
    have normal : Normal className (Ty.combine [a, b]) := .combine (by simp [ha, hb])
    apply normal.same_of_extent_eq hb
    rw [joined, Set.union_eq_self_of_subset_left within]

end TypeLedger.Ty
