import TypeLedger.Text.Utf8
import TypeLedger.Proofs.Text.SplitPair

/-! Decoding undoes encoding. A scalar is cut into groups of six bits from the right, and each lead byte
asks for the continuation bytes that the encoding puts after it. -/
namespace TypeLedger.Utf8

variable {o n b start missing lower upper bits : Nat} {bytes : List UInt8} {c : CodePoint} {t : Text}

theorem toNat_ofNat (h : b < 0x100) : (UInt8.ofNat b).toNat = b :=
  UInt8.toNat_ofNat_of_lt' h

theorem decodeFrom_ascii (h : n < 0x80) : decodeFrom o none (UInt8.ofNat n :: bytes) =
    (.scalar (Char.ofNat n) :: ·) <$> decodeFrom (o + 1) none bytes := by
  rw [decodeFrom, toNat_ofNat (by omega), if_pos h]

theorem decodeFrom_lead {p : Pending} (high : 0x80 ≤ b) (small : b < 0x100)
    (lead : Pending.ofLead? o b = some p) :
    decodeFrom o none (UInt8.ofNat b :: bytes) = decodeFrom (o + 1) (some p) bytes := by
  rw [decodeFrom, toNat_ofNat small, if_neg (by omega), lead]

theorem decodeFrom_next (small : upper < 0x100) (inside : lower ≤ b ∧ b ≤ upper) :
    decodeFrom o (some ⟨start, missing + 1, lower, upper, bits⟩) (UInt8.ofNat b :: bytes) =
      decodeFrom (o + 1) (some ⟨start, missing, 0x80, 0xBF, 64 * bits + (b - 0x80)⟩) bytes := by
  rw [decodeFrom, toNat_ofNat (by omega), if_pos inside]

theorem decodeFrom_last (small : upper < 0x100) (inside : lower ≤ b ∧ b ≤ upper) :
    decodeFrom o (some ⟨start, 0, lower, upper, bits⟩) (UInt8.ofNat b :: bytes) =
      (.scalar (Char.ofNat (64 * bits + (b - 0x80))) :: ·) <$> decodeFrom (o + 1) none bytes := by
  rw [decodeFrom, toNat_ofNat (by omega), if_pos inside]

theorem ofLead?_two (low : 0x80 ≤ n) (high : n < 0x800) :
    Pending.ofLead? o (0xC0 + n / 64) = some ⟨o, 0, 0x80, 0xBF, n / 64⟩ := by
  rw [Pending.ofLead?, if_pos (by omega), Nat.add_sub_cancel_left]

/-- The ranges leave out what has a shorter encoding and the halves of surrogate pairs. -/
theorem ofLead?_three (low : 0x800 ≤ n) (high : n < 0x10000) (scalar : n < 0xD800 ∨ 0xDFFF < n) :
    ∃ lower upper, Pending.ofLead? o (0xE0 + n / 4096) = some ⟨o, 1, lower, upper, n / 4096⟩ ∧
      upper < 0x100 ∧ lower ≤ 0x80 + n / 64 % 64 ∧ 0x80 + n / 64 % 64 ≤ upper := by
  unfold Pending.ofLead?
  rw [if_neg (by omega)]
  split
  · exact ⟨0xA0, 0xBF, by simp only [Option.some.injEq, Pending.mk.injEq, true_and]; omega,
      by decide, by omega, by omega⟩
  split
  · exact ⟨0x80, 0x9F, by simp only [Option.some.injEq, Pending.mk.injEq, true_and]; omega,
      by decide, by omega, by omega⟩
  · exact ⟨0x80, 0xBF, by rw [if_pos (by omega), Nat.add_sub_cancel_left],
      by decide, by omega, by omega⟩

theorem ofLead?_four (low : 0x10000 ≤ n) (high : n < 0x110000) :
    ∃ lower upper, Pending.ofLead? o (0xF0 + n / 262144) = some ⟨o, 2, lower, upper, n / 262144⟩ ∧
      upper < 0x100 ∧ lower ≤ 0x80 + n / 4096 % 64 ∧ 0x80 + n / 4096 % 64 ≤ upper := by
  unfold Pending.ofLead?
  rw [if_neg (by omega), if_neg (by omega), if_neg (by omega), if_neg (by omega)]
  split
  · exact ⟨0x90, 0xBF, by simp only [Option.some.injEq, Pending.mk.injEq, true_and]; omega,
      by decide, by omega, by omega⟩
  split
  · exact ⟨0x80, 0x8F, by simp only [Option.some.injEq, Pending.mk.injEq, true_and]; omega,
      by decide, by omega, by omega⟩
  · exact ⟨0x80, 0xBF, by rw [if_pos (by omega), Nat.add_sub_cancel_left],
      by decide, by omega, by omega⟩

theorem decodeFrom_encodeOne (k : Char) (bytes : List UInt8) :
    decodeFrom o none (encodeOne (.scalar k) ++ bytes) =
      (.scalar k :: ·) <$> decodeFrom (o + (encodeOne (.scalar k)).length) none bytes := by
  obtain ⟨n, number⟩ : ∃ n, n = (CodePoint.scalar k).toNat := ⟨_, rfl⟩
  have valid : n < 0xD800 ∨ 0xDFFF < n ∧ n < 0x110000 := number ▸ k.valid
  have same : Char.ofNat n = k := by
    rw [number]
    exact Char.ofNat_toNat k
  simp only [encodeOne, ← number]
  split
  next small =>
    rw [List.singleton_append, decodeFrom_ascii small, same]
    rfl
  split
  next low small =>
    have bits : 64 * (n / 64) + (0x80 + n % 64 - 0x80) = n := by omega
    simp only [List.cons_append, List.nil_append]
    rw [decodeFrom_lead (by omega) (by omega) (ofLead?_two (by omega) small),
      decodeFrom_last (by decide) (by omega), bits, same]
    rfl
  split
  next low small =>
    obtain ⟨lower, upper, lead, bound, inside⟩ :=
      ofLead?_three (o := o) (n := n) (by omega) small (by omega)
    have bits : 64 * (64 * (n / 4096) + (0x80 + n / 64 % 64 - 0x80)) + (0x80 + n % 64 - 0x80)
        = n := by omega
    simp only [List.cons_append, List.nil_append]
    rw [decodeFrom_lead (by omega) (by omega) lead, decodeFrom_next bound inside,
      decodeFrom_last (by decide) (by omega), bits, same]
    rfl
  next low =>
    obtain ⟨lower, upper, lead, bound, inside⟩ :=
      ofLead?_four (o := o) (n := n) (by omega) (by omega)
    have bits : 64 * (64 * (64 * (n / 262144) + (0x80 + n / 4096 % 64 - 0x80)) +
        (0x80 + n / 64 % 64 - 0x80)) + (0x80 + n % 64 - 0x80) = n := by omega
    simp only [List.cons_append, List.nil_append]
    rw [decodeFrom_lead (by omega) (by omega) lead, decodeFrom_next bound inside,
      decodeFrom_next (by decide) (by omega), decodeFrom_last (by decide) (by omega), bits, same]
    rfl

theorem decodeFrom_encode (h : t.IsScalar) (o : Nat) : decodeFrom o none (encode t) = .ok t := by
  induction t generalizing o with
  | nil => rfl
  | cons c t ih =>
    obtain ⟨⟨k, rfl⟩, others⟩ := List.forall_mem_cons.mp h
    rw [encode, List.flatMap_cons, ← encode, decodeFrom_encodeOne, ih others]
    rfl

/-- A text without halves of surrogate pairs is decoded from its bytes. -/
theorem decode_encode (h : t.IsScalar) : decode (encode t) = .ok t :=
  decodeFrom_encode h 0

end TypeLedger.Utf8
