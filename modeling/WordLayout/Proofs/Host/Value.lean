import Mathlib
import WordLayout.Host.Value
import WordLayout.Proofs.BitPlan

namespace WordLayout.Host.Value

open Word

theorem ofBits_eq_of_low {kind : ScalarKind} {v : Value} {x y : UInt32}
    (hv : v.bits? kind = some x) (h : ∀ i < 8 * kind.size.toNat, bit y i = bit x i) :
    ofBits kind y = v := by
  cases kind <;> cases v <;> simp only [bits?, reduceCtorEq, Option.some.injEq] at hv <;> subst hv
  case f32 | u32 => simp only [ofBits, eq_of_bit h]
  case i32 n => simp only [ofBits, eq_of_bit h, Int32.toInt32_toUInt32]
  case u8 n =>
    simp only [ofBits, u8.injEq, ← UInt8.toBitVec_inj]
    apply BitVec.eq_of_getLsbD_eq
    intro i hi
    have hb := h i hi
    simp only [bit, UInt8.toBitVec_toUInt32, BitVec.getLsbD_setWidth] at hb
    rw [UInt32.toBitVec_toUInt8, BitVec.getLsbD_setWidth, hb, decide_eq_true hi,
      decide_eq_true (show i < 32 by omega), Bool.true_and, Bool.true_and]
  case u16 n =>
    simp only [ofBits, u16.injEq, ← UInt16.toBitVec_inj]
    apply BitVec.eq_of_getLsbD_eq
    intro i hi
    have hb := h i hi
    simp only [bit, UInt16.toBitVec_toUInt32, BitVec.getLsbD_setWidth] at hb
    rw [UInt32.toBitVec_toUInt16, BitVec.getLsbD_setWidth, hb, decide_eq_true hi,
      decide_eq_true (show i < 32 by omega), Bool.true_and, Bool.true_and]
  case i8 n =>
    simp only [ofBits, i8.injEq, ← Int8.toBitVec_inj]
    apply BitVec.eq_of_getLsbD_eq
    intro i hi
    have hb := h i hi
    simp only [bit, Int32.toBitVec_toUInt32, Int8.toBitVec_toInt32, BitVec.getLsbD_signExtend] at hb
    rw [UInt8.toBitVec_toInt8, UInt32.toBitVec_toUInt8, BitVec.getLsbD_setWidth, hb,
      decide_eq_true hi, decide_eq_true (show i < 32 by omega), if_pos hi, Bool.true_and,
      Bool.true_and]
  case i16 n =>
    simp only [ofBits, i16.injEq, ← Int16.toBitVec_inj]
    apply BitVec.eq_of_getLsbD_eq
    intro i hi
    have hb := h i hi
    simp only [bit, Int32.toBitVec_toUInt32, Int16.toBitVec_toInt32,
      BitVec.getLsbD_signExtend] at hb
    rw [UInt16.toBitVec_toInt16, UInt32.toBitVec_toUInt16, BitVec.getLsbD_setWidth, hb,
      decide_eq_true hi, decide_eq_true (show i < 32 by omega), if_pos hi, Bool.true_and,
      Bool.true_and]

theorem bits?_ofBits {kind : ScalarKind} (hk : kind.isKnown = true) (y : UInt32) :
    ∃ x, (ofBits kind y).bits? kind = some x ∧ ∀ i < 8 * kind.size.toNat, bit x i = bit y i := by
  cases kind with
  | f32 | u32 => exact ⟨y, rfl, fun i _ => rfl⟩
  | i32 => exact ⟨y.toInt32.toUInt32, rfl, fun i _ => by rw [UInt32.toUInt32_toInt32]⟩
  | u8 =>
    refine ⟨_, rfl, fun i hi => ?_⟩
    have hi8 : i < 8 := hi
    simp only [bit, UInt8.toBitVec_toUInt32, UInt32.toBitVec_toUInt8, BitVec.getLsbD_setWidth,
      hi8, show i < 32 by omega, decide_true, Bool.true_and]
  | u16 =>
    refine ⟨_, rfl, fun i hi => ?_⟩
    have hi16 : i < 16 := hi
    simp only [bit, UInt16.toBitVec_toUInt32, UInt32.toBitVec_toUInt16, BitVec.getLsbD_setWidth,
      hi16, show i < 32 by omega, decide_true, Bool.true_and]
  | i8 =>
    refine ⟨_, rfl, fun i hi => ?_⟩
    have hi8 : i < 8 := hi
    simp only [bit, Int32.toBitVec_toUInt32, Int8.toBitVec_toInt32, UInt8.toBitVec_toInt8,
      UInt32.toBitVec_toUInt8, BitVec.getLsbD_signExtend, BitVec.getLsbD_setWidth, hi8,
      show i < 32 by omega, if_true, decide_true, Bool.true_and]
  | i16 =>
    refine ⟨_, rfl, fun i hi => ?_⟩
    have hi16 : i < 16 := hi
    simp only [bit, Int32.toBitVec_toUInt32, Int16.toBitVec_toInt32, UInt16.toBitVec_toInt16,
      UInt32.toBitVec_toUInt16, BitVec.getLsbD_signExtend, BitVec.getLsbD_setWidth, hi16,
      show i < 32 by omega, if_true, decide_true, Bool.true_and]
  | unknown c => cases hk

theorem inRange_of_bits? {kind : ScalarKind} {v : Value} {x : UInt32} (maskUnsigned : Bool)
    (hv : v.bits? kind = some x) : Insert.InRange kind maskUnsigned x := by
  cases kind <;> cases v <;> simp only [bits?, reduceCtorEq, Option.some.injEq] at hv <;> subst hv
  case i8 | i16 | i32 => exact .inl rfl
  case f32 | u32 => exact .inr (.inr fun i hi => bit_of_le _ hi)
  case u8 n =>
    refine .inr (.inr fun i hi => ?_)
    simp only [bit, UInt8.toBitVec_toUInt32, BitVec.getLsbD_setWidth]
    rw [BitVec.getLsbD_of_ge n.toBitVec i hi, Bool.and_false]
  case u16 n =>
    refine .inr (.inr fun i hi => ?_)
    simp only [bit, UInt16.toBitVec_toUInt32, BitVec.getLsbD_setWidth]
    rw [BitVec.getLsbD_of_ge n.toBitVec i hi, Bool.and_false]

theorem bit_extended {kind : ScalarKind} {v : Value} {x : UInt32} (hv : v.bits? kind = some x)
    {i : Nat} (hlo : 8 * kind.size.toNat ≤ i) (hi : i < 32) :
    bit x i = (kind.isSigned && bit x (8 * kind.size.toNat - 1)) := by
  cases hs : kind.isSigned with
  | false =>
    rcases inRange_of_bits? false hv with h | h | h
    · rw [hs] at h
      cases h
    · cases h
    · rw [h i hlo, Bool.false_and]
  | true =>
    cases kind <;> cases v <;> simp only [bits?, reduceCtorEq, Option.some.injEq] at hv <;>
      subst hv
    case i8 n =>
      have hlo8 : ¬ i < 8 := Nat.not_lt.mpr hlo
      simp only [bit, Int32.toBitVec_toUInt32, Int8.toBitVec_toInt32, BitVec.getLsbD_signExtend,
        hi, hlo8, decide_true, if_false, Bool.true_and, BitVec.msb_eq_getLsbD_last]
      simp [ScalarKind.size]
    case i16 n =>
      have hlo16 : ¬ i < 16 := Nat.not_lt.mpr hlo
      simp only [bit, Int32.toBitVec_toUInt32, Int16.toBitVec_toInt32, BitVec.getLsbD_signExtend,
        hi, hlo16, decide_true, if_false, Bool.true_and, BitVec.msb_eq_getLsbD_last]
      simp [ScalarKind.size]
    case i32 n =>
      have hlo32 : 32 ≤ i := hlo
      omega
    case f32 | u8 | u16 | u32 => cases hs

end WordLayout.Host.Value
