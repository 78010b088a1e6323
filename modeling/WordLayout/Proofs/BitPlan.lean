import Mathlib
import WordLayout.BitPlan
import WordLayout.Proofs.Word

namespace WordLayout

open Word

namespace ScalarKind

theorem fits_word (k : ScalarKind) {offset : Nat} (ha : offset % k.size.toNat = 0) :
    offset % 4 + k.size.toNat ≤ 4 := by
  cases k <;> simp only [size, UInt32.reduceToNat] at ha ⊢ <;> omega

theorem size_dvd_four (k : ScalarKind) : k.size.toNat ∣ 4 := by
  cases k <;> simp only [size, UInt32.reduceToNat] <;> decide

theorem mod_four_of_size_eq {k : ScalarKind} (hk : k.size = 4) {offset : UInt32}
    (ha : offset.toNat % k.size.toNat = 0) : offset % 4 = 0 := by
  rw [hk] at ha
  rw [← UInt32.toNat_inj, toNat_mod_four]
  exact ha

theorem narrow_cases {k : ScalarKind} (hk : k.size ≠ 4) {offset : UInt32}
    (ha : offset.toNat % k.size.toNat = 0) :
    (k.size = 1 ∧ (offset % 4 = 0 ∨ offset % 4 = 1 ∨ offset % 4 = 2 ∨ offset % 4 = 3)) ∨
      (k.size = 2 ∧ (offset % 4 = 0 ∨ offset % 4 = 2)) := by
  have h4 := mod_four_cases offset
  cases k with
  | u8 | i8 => exact .inl ⟨rfl, h4⟩
  | u16 | i16 =>
    refine .inr ⟨rfl, ?_⟩
    simp only [size, UInt32.reduceToNat] at ha
    simp only [← UInt32.toNat_inj, toNat_mod_four, UInt32.reduceToNat]
    omega
  | _ => exact absurd rfl hk

end ScalarKind

namespace Extract

theorem plan_word (offset : UInt32) (kind : ScalarKind) : (plan offset kind).word = offset / 4 := by
  simp only [plan]
  repeat' split
  all_goals rfl

theorem bits_plan_whole {kind : ScalarKind} (hk : kind.size = 4) (offset raw : UInt32) :
    (plan offset kind).bits raw = raw := by
  cases kind <;> first | rfl | exact absurd hk (by decide)

theorem bits_plan_signed {kind : ScalarKind} (hs : kind.isSigned = true) (hk : kind.size ≠ 4)
    {offset : UInt32} (ha : offset.toNat % kind.size.toNat = 0) (raw : UInt32) :
    (plan offset kind).bits raw =
      (signExtend raw (offset % 4 * 8).toUInt64 (kind.size * 8).toUInt64).toUInt32 := by
  have hf : kind.isFloat = false := by cases kind <;> first | rfl | cases hs
  rcases ScalarKind.narrow_cases hk ha with ⟨hn, h | h | h | h⟩ | ⟨hn, h | h⟩ <;>
    simp [plan, bits, hs, hf, hn, h]

theorem bit_bits_plan_unsigned {kind : ScalarKind} (hs : kind.isSigned = false)
    (hk : kind.size ≠ 4) {offset : UInt32} (ha : offset.toNat % kind.size.toNat = 0)
    (raw : UInt32) {i : Nat} (hi : i < 32) :
    bit ((plan offset kind).bits raw) i =
      (decide (i < 8 * kind.size.toNat) && bit raw (8 * (offset.toNat % 4) + i)) := by
  have hf : kind.isFloat = false := by cases kind <;> first | rfl | exact absurd rfl hk
  have hm := bit_lowMask kind hk hi
  rw [← toNat_mod_four]
  rcases ScalarKind.narrow_cases hk ha with ⟨hn, h | h | h | h⟩ | ⟨hn, h | h⟩ <;>
    rw [hn] at hm <;> simp [plan, bits, hs, hf, hn, h, bit_shiftRight, hm, Bool.and_comm]
  -- what ends at the top needs no mask, the shift brings in zeros
  · intro hb
    by_contra hge
    rw [bit_of_le raw (by omega)] at hb
    cases hb
  · intro hb
    by_contra hge
    rw [bit_of_le raw (by omega)] at hb
    cases hb

theorem bit_bits_plan {kind : ScalarKind} {offset : UInt32}
    (ha : offset.toNat % kind.size.toNat = 0) (raw : UInt32) {i : Nat} (hi : i < 32) :
    bit ((plan offset kind).bits raw) i =
      if i < 8 * kind.size.toNat then bit raw (8 * (offset.toNat % 4) + i)
      else kind.isSigned && bit raw (8 * (offset.toNat % 4) + 8 * kind.size.toNat - 1) := by
  by_cases hk : kind.size = 4
  · rw [bits_plan_whole hk, ← toNat_mod_four, ScalarKind.mod_four_of_size_eq hk ha, hk]
    simp [hi]
  · cases hs : kind.isSigned with
    | false =>
      rw [bit_bits_plan_unsigned hs hk ha raw hi]
      by_cases h : i < 8 * kind.size.toNat <;> simp [h]
    | true =>
      have hfit := kind.fits_word ha
      have hpos := kind.size_pos
      have hoff : (offset % 4 * 8).toUInt64.toNat = 8 * (offset.toNat % 4) := by
        simp only [UInt32.toNat_toUInt64, UInt32.toNat_mul, UInt32.toNat_mod, UInt32.reduceToNat]
        omega
      have hwidth : (kind.size * 8).toUInt64.toNat = 8 * kind.size.toNat := by
        cases kind <;> rfl
      rw [bits_plan_signed hs hk ha, bit_signExtend raw (by omega) (by omega) hi, hoff, hwidth]
      split
      · rw [Nat.min_eq_left (by omega)]
      · rw [Nat.min_eq_right (by omega), Bool.true_and]
        congr 1
        omega

end Extract

namespace Insert

def InRange (kind : ScalarKind) (maskUnsigned : Bool) (value : UInt32) : Prop :=
  kind.isSigned = true ∨ maskUnsigned = true ∨
    ∀ i, 8 * kind.size.toNat ≤ i → bit value i = false

theorem lowMask_ne_zero {kind : ScalarKind} (hk : kind.size ≠ 4) : lowMask kind.size ≠ 0 := by
  cases kind <;> first | decide | exact absurd rfl hk

theorem bits_plan_whole {kind : ScalarKind} (hk : kind.size = 4) {offset : UInt32}
    (ha : offset.toNat % kind.size.toNat = 0) (maskUnsigned : Bool) (value : UInt32) :
    (plan offset kind maskUnsigned).bits value = value := by
  have h0 := ScalarKind.mod_four_of_size_eq hk ha
  simp [plan, bits, hk, h0]

theorem bits_plan_narrow {kind : ScalarKind} (hk : kind.size ≠ 4) (offset : UInt32)
    (maskUnsigned : Bool) (value : UInt32) :
    (plan offset kind maskUnsigned).bits value =
      (if (kind.isSigned && !(offset % 4 * 8 + kind.size * 8 == 32)) ||
          (!kind.isSigned && maskUnsigned) then
        value &&& lowMask kind.size else value) <<< (offset % 4 * 8) := by
  simp only [plan, if_neg hk, bits]
  split <;> simp [*, lowMask_ne_zero hk]

theorem bit_eq_false_of_unmasked {kind : ScalarKind} {offset : UInt32} {maskUnsigned : Bool}
    {value : UInt32} (hr : InRange kind maskUnsigned value)
    (hmask : ¬((kind.isSigned && !(offset % 4 * 8 + kind.size * 8 == 32)) ||
      (!kind.isSigned && maskUnsigned)) = true) {i : Nat}
    (hlo : 8 * kind.size.toNat ≤ i) (hhi : 8 * (offset.toNat % 4) + i < 32) :
    bit value i = false := by
  cases hs : kind.isSigned with
  | true =>
    -- an unmasked signed value ends at the top of the word
    have htop : offset % 4 * 8 + kind.size * 8 = 32 := by simpa [hs] using hmask
    have hsum := congrArg UInt32.toNat htop
    have hn := kind.size_le_four
    simp only [UInt32.toNat_add, UInt32.toNat_mul, UInt32.toNat_mod, UInt32.reduceToNat] at hsum
    omega
  | false =>
    have hu : maskUnsigned = false := by simpa [hs] using hmask
    rcases hr with h | h | h
    · rw [hs] at h
      cases h
    · rw [hu] at h
      cases h
    · exact h i hlo

theorem bit_bits_plan {kind : ScalarKind} {offset : UInt32} {maskUnsigned : Bool} {value : UInt32}
    (ha : offset.toNat % kind.size.toNat = 0) (hr : InRange kind maskUnsigned value) {i : Nat}
    (hi : i < 32) :
    bit ((plan offset kind maskUnsigned).bits value) i =
      (decide (8 * (offset.toNat % 4) ≤ i ∧
          i < 8 * (offset.toNat % 4) + 8 * kind.size.toNat) &&
        bit value (i - 8 * (offset.toNat % 4))) := by
  by_cases hk : kind.size = 4
  · have h0 := ScalarKind.mod_four_of_size_eq hk ha
    rw [bits_plan_whole hk ha, ← toNat_mod_four, h0, hk]
    simp [hi]
  · have hshift : (offset % 4 * 8).toNat = 8 * (offset.toNat % 4) := by
      simp only [UInt32.toNat_mul, UInt32.toNat_mod, UInt32.reduceToNat]
      omega
    rw [bits_plan_narrow hk, bit_shiftLeft _ (by omega) hi, hshift]
    by_cases hlo : 8 * (offset.toNat % 4) ≤ i
    · have hin : i < 8 * (offset.toNat % 4) + 8 * kind.size.toNat ↔
          i - 8 * (offset.toNat % 4) < 8 * kind.size.toNat := by omega
      split
      · rw [bit_and, bit_lowMask kind hk (by omega), Bool.and_comm (bit value _)]
        simp only [hlo, hin, decide_true, true_and, Bool.true_and]
      · rename_i hmask
        by_cases h : i - 8 * (offset.toNat % 4) < 8 * kind.size.toNat
        · simp only [hlo, hin, h, decide_true, and_self, Bool.true_and]
        · rw [bit_eq_false_of_unmasked hr hmask (by omega) (by omega), Bool.and_false,
            Bool.and_false]
    · simp only [hlo, decide_false, false_and, Bool.false_and]

end Insert

end WordLayout
