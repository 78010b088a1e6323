import Mathlib
import WordLayout.Scalar
import WordLayout.Word

namespace WordLayout.Word

theorem mod_four_cases (x : UInt32) : x % 4 = 0 ∨ x % 4 = 1 ∨ x % 4 = 2 ∨ x % 4 = 3 := by
  simp only [← UInt32.toNat_inj, UInt32.toNat_mod, UInt32.reduceToNat]
  omega

theorem toNat_mod_four (x : UInt32) : (x % 4).toNat = x.toNat % 4 := by
  rw [UInt32.toNat_mod]
  rfl

theorem toNat_div_four (x : UInt32) : (x / 4).toNat = x.toNat / 4 := by
  rw [UInt32.toNat_div]
  rfl

theorem shiftRight_two (x : UInt32) : x >>> 2 = x / 4 := by
  rw [← UInt32.toNat_inj, UInt32.toNat_shiftRight, toNat_div_four]
  exact Nat.shiftRight_eq_div_pow _ 2

theorem toNat_add_of_lt {a b : UInt32} (h : a.toNat + b.toNat < 2 ^ 32) :
    (a + b).toNat = a.toNat + b.toNat := by
  rw [UInt32.toNat_add, Nat.mod_eq_of_lt h]

theorem lane_zero (offset size : UInt32) : offset + UInt32.ofNat 0 * size = offset := by
  simp

def bit (w : UInt32) (i : Nat) : Bool := w.toBitVec.getLsbD i

theorem eq_of_bit {a b : UInt32} (h : ∀ i < 32, bit a i = bit b i) : a = b := by
  rw [← UInt32.toBitVec_inj]
  exact BitVec.eq_of_getLsbD_eq h

@[simp]
theorem bit_zero (i : Nat) : bit 0 i = false := by
  simp [bit]

theorem bit_of_le (w : UInt32) {i : Nat} (hi : 32 ≤ i) : bit w i = false :=
  BitVec.getLsbD_of_ge _ _ hi

@[simp]
theorem bit_or (a b : UInt32) (i : Nat) : bit (a ||| b) i = (bit a i || bit b i) := by
  simp [bit]

theorem bit_foldl_or (parts : List UInt32) (w : UInt32) (i : Nat) :
    bit (parts.foldl (· ||| ·) w) i = true ↔ bit w i = true ∨ ∃ x ∈ parts, bit x i = true := by
  induction parts generalizing w with
  | nil => simp
  | cons x parts ih =>
    rw [List.foldl_cons, ih, bit_or, Bool.or_eq_true, or_assoc]
    simp

@[simp]
theorem bit_and (a b : UInt32) (i : Nat) : bit (a &&& b) i = (bit a i && bit b i) := by
  simp [bit]

theorem bit_shiftRight (w : UInt32) {n : UInt32} (hn : n.toNat < 32) (i : Nat) :
    bit (w >>> n) i = bit w (n.toNat + i) := by
  have hm : n.toNat % 32 = n.toNat := Nat.mod_eq_of_lt hn
  simp only [bit, UInt32.toBitVec_shiftRight, BitVec.ushiftRight_eq', BitVec.toNat_umod,
    UInt32.toNat_toBitVec, BitVec.reduceToNat, hm, BitVec.getLsbD_ushiftRight]

theorem bit_shiftLeft (w : UInt32) {n : UInt32} (hn : n.toNat < 32) {i : Nat} (hi : i < 32) :
    bit (w <<< n) i = (decide (n.toNat ≤ i) && bit w (i - n.toNat)) := by
  have hm : n.toNat % 32 = n.toNat := Nat.mod_eq_of_lt hn
  simp only [bit, UInt32.toBitVec_shiftLeft, BitVec.shiftLeft_eq', BitVec.toNat_umod,
    UInt32.toNat_toBitVec, BitVec.reduceToNat, hm, BitVec.getLsbD_shiftLeft, hi, decide_true,
    Bool.true_and]
  by_cases h : i < n.toNat
  · simp [h]
  · simp [h, Nat.le_of_not_lt h]

theorem shiftLeft_eq (w : UInt32) {n : Nat} (hn : n < 32) :
    shiftLeft w n = w <<< UInt32.ofNat n := by
  rw [shiftLeft, if_pos hn]

theorem bit_shiftRightSigned (w : UInt32) {n i : Nat} (hn : n < 32) (hi : i < 32) :
    bit (shiftRightSigned w n) i = if n + i < 32 then bit w (n + i) else bit w 31 := by
  have hm : min n 32 = n := by omega
  simp only [bit, shiftRightSigned, hm, BitVec.getLsbD_sshiftRight, BitVec.msb_eq_getLsbD_last]
  simp [hi]

theorem bit_lowMask (k : ScalarKind) (hk : k.size ≠ 4) {i : Nat} (hi : i < 32) :
    bit (lowMask k.size) i = decide (i < 8 * k.size.toNat) := by
  have one : ∀ j < 32, bit (lowMask 1) j = decide (j < 8) := by decide
  have two : ∀ j < 32, bit (lowMask 2) j = decide (j < 16) := by decide
  cases k with
  | u8 | i8 => exact one i hi
  | u16 | i16 => exact two i hi
  | _ => exact absurd rfl hk

theorem bit_signExtend (raw : UInt32) {off width : UInt64} {i : Nat} (hw : 1 ≤ width.toNat)
    (h : off.toNat + width.toNat ≤ 32) (hi : i < 32) :
    bit (signExtend raw off width).toUInt32 i =
      bit raw (off.toNat + min i (width.toNat - 1)) := by
  have hsum : (off + width).toNat = off.toNat + width.toNat := by
    rw [UInt64.toNat_add]
    exact Nat.mod_eq_of_lt (by omega)
  by_cases htop : off.toNat + width.toNat = 32
  · -- the field ends at bit 31, one arithmetic shift is enough
    have hc : (32 : UInt64) ≤ off + width := by
      rw [UInt64.le_iff_toNat_le, hsum]
      exact htop.ge
    simp only [signExtend, if_pos hc, UInt32.toUInt32_toInt32]
    rw [bit_shiftRightSigned raw (by omega) hi]
    split
    · rw [show min i (width.toNat - 1) = i by omega]
    · congr 1
      omega
  · have hc : ¬ (32 : UInt64) ≤ off + width := by
      rw [UInt64.le_iff_toNat_le, hsum]
      change ¬ 32 ≤ _
      omega
    have hoff : (32 - off).toNat = 32 - off.toNat :=
      UInt64.toNat_sub_of_le _ _ (UInt64.le_iff_toNat_le.mpr (by change _ ≤ 32; omega))
    have hup : (32 - off - width).toNat = 32 - off.toNat - width.toNat := by
      rw [UInt64.toNat_sub_of_le _ _ (UInt64.le_iff_toNat_le.mpr (by omega)), hoff]
    have hdown : (32 - width).toNat = 32 - width.toNat :=
      UInt64.toNat_sub_of_le _ _ (UInt64.le_iff_toNat_le.mpr (by change _ ≤ 32; omega))
    simp only [signExtend, if_neg hc, UInt32.toUInt32_toInt32, hup, hdown]
    have hn : (UInt32.ofNat (32 - off.toNat - width.toNat)).toNat =
        32 - off.toNat - width.toNat := UInt32.toNat_ofNat_of_lt' (by change _ < 4294967296; omega)
    rw [shiftLeft_eq raw (by omega), bit_shiftRightSigned _ (by omega) hi]
    split
    · rw [bit_shiftLeft raw (by omega) (by omega), hn, decide_eq_true (by omega), Bool.true_and]
      congr 1
      omega
    · rw [bit_shiftLeft raw (by omega) (by omega), hn, decide_eq_true (by omega), Bool.true_and]
      congr 1
      omega

end WordLayout.Word
