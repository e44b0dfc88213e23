import TypeLedger.Proofs.Accumulator.LastWrite
import TypeLedger.Proofs.Ty.Congruence
import Mathlib.Data.List.Perm.Basic

/-! The combination of an accumulator is settled by the latest type of each identifier. The order of
submissions, their repetition and what was submitted before leave no trace in it. -/
namespace TypeLedger.Accumulator

variable {calls first second : List Source}

/-- The runs submit for the same identifiers. -/
def SameIds (first second : List Source) : Prop :=
  ∀ id, id ∈ first.map Source.id ↔ id ∈ second.map Source.id

/-- The latest types of an identifier in the runs are the same. -/
def SameLatest (first second : List Source) : Prop :=
  ∀ id, ∀ t ∈ (history id first).getLast?, ∀ u ∈ (history id second).getLast?, t.same u = true

theorem SameIds.symm (h : SameIds first second) : SameIds second first := fun id => (h id).symm

theorem SameLatest.symm (h : SameLatest first second) : SameLatest second first :=
  fun id t ht u hu => Ty.same_symm (h id u hu t ht)

theorem SameIds.eq_nil_iff (h : SameIds first second) : first = [] ↔ second = [] := by
  rw [← List.map_eq_nil_iff, List.eq_nil_iff_forall_not_mem,
    ← List.map_eq_nil_iff (f := Source.id) (l := second), List.eq_nil_iff_forall_not_mem]
  exact forall_congr' fun id => not_congr (h id)

theorem SameIds.length_types (h : SameIds first second) :
    (empty.run first).types.length = (empty.run second).types.length := by
  have perm : ((empty.run first).sources.map Source.id).Perm
      ((empty.run second).sources.map Source.id) := by
    apply (List.perm_ext_iff_of_nodup (consistent_empty.run first).unique
      (consistent_empty.run second).unique).mpr
    intro id
    rw [(reflects_run first).ids, (reflects_run second).ids, List.mem_eraseDups, List.mem_eraseDups]
    exact h id
  simpa [types] using perm.length_eq

theorem SameIds.exists_same (h : SameIds first second) (latest : SameLatest first second) :
    ∀ t ∈ (empty.run first).types, ∃ u ∈ (empty.run second).types, u.same t = true := by
  have left := reflects_run first
  have right := reflects_run second
  intro t mem
  obtain ⟨s, hs, rfl⟩ := List.mem_map.mp mem
  obtain ⟨r, hr, named⟩ := right.mem_ids.mpr ((h s.id).mp (left.mem_ids.mp ⟨s, hs, rfl⟩))
  obtain ⟨t, last, same⟩ := (left.types s hs).same_latest
  obtain ⟨u, last', same'⟩ := (right.types r hr).same_latest
  rw [named] at last'
  refine ⟨r.type, List.mem_map_of_mem hr, Ty.same_symm ?_⟩
  exact Ty.same_trans same (Ty.same_trans (latest s.id t last u last') (Ty.same_symm same'))

theorem classBased_types (h : ∀ call ∈ calls, call.type.ClassBased) :
    ∀ t ∈ (empty.run calls).types, t.ClassBased := by
  intro t mem
  obtain ⟨s, hs, rfl⟩ := List.mem_map.mp mem
  obtain ⟨call, hc, _, submitted⟩ := mem_history.mp ((reflects_run calls).types s hs).mem
  exact submitted ▸ h call hc

/-- Runs with the same identifiers, and the same latest type for each of them, end with the same
combination. -/
theorem same_combined_of_same_latest (first second : List Source)
    (based : ∀ call ∈ first ++ second, call.type.ClassBased) (ids : SameIds first second)
    (latest : SameLatest first second) :
    (empty.run first).combined.same (empty.run second).combined = true := by
  have left := reflects_run first
  have right := reflects_run second
  by_cases none : first = []
  · rw [left.unknown none, right.unknown (ids.eq_nil_iff.mp none)]
    rfl
  have some : second ≠ [] := mt ids.eq_nil_iff.mpr none
  obtain ⟨basedLeft, basedRight⟩ := List.forall_mem_append.mp based
  have alike : Ty.Alike (empty.run first).types (empty.run second).types :=
    Ty.alike_of_exists_same (ids.exists_same latest) (ids.symm.exists_same latest.symm)
  have bases : ∀ t ∈ (empty.run first).types ++ (empty.run second).types, t.ClassBased :=
    List.forall_mem_append.mpr ⟨classBased_types basedLeft, classBased_types basedRight⟩
  have combined := alike.combine_of_length ids.length_types
    fun base v mem => (Ty.ClassBased.openUnions bases _ mem).isLiteral_base
  exact Ty.same_trans (left.combined none)
    (Ty.same_trans combined (Ty.same_symm (right.combined some)))

/-- What comes first in a combination depends on the order, and no more than that. -/
theorem same_combined_of_same_latest_reordered :
    (empty.run [⟨1, .named "str" []⟩, ⟨2, .any⟩, ⟨2, .union [.null, .null]⟩]).combined =
      .union [.named "str" [], .null] ∧
    (empty.run [⟨2, .union [.null]⟩, ⟨1, .unknown⟩, ⟨1, .named "str" []⟩]).combined =
      .union [.null, .named "str" []] ∧
    (empty.run [⟨1, .named "str" []⟩, ⟨2, .any⟩, ⟨2, .union [.null, .null]⟩]).combined.same
      (empty.run [⟨2, .union [.null]⟩, ⟨1, .unknown⟩, ⟨1, .named "str" []⟩]).combined = true := by
  refine ⟨rfl, rfl, same_combined_of_same_latest _ _ ?_ ?_ ?_⟩
  · have str : Ty.ClassBased (.named "str" []) := .named (by simp)
    have nulls : Ty.ClassBased (.union [.null, .null]) := .union (by simp [Ty.ClassBased.null])
    have single : Ty.ClassBased (.union [.null]) := .union (by simp [Ty.ClassBased.null])
    simp [str, nulls, single, Ty.ClassBased.any, Ty.ClassBased.unknown]
  · intro id
    simp [or_comm]
  · intro id t ht u hu
    by_cases one : id = 1
    · subst one
      obtain rfl := Option.some.inj ht
      obtain rfl := Option.some.inj hu
      rfl
    · by_cases two : id = 2
      · subst two
        obtain rfl := Option.some.inj ht
        obtain rfl := Option.some.inj hu
        rfl
      · simp [history, Ne.symm one, Ne.symm two] at ht

end TypeLedger.Accumulator
