import Mathlib
import WordLayout.Proofs.BitPlan

namespace WordLayout

namespace Word

def field (raw : UInt32) (off width : Nat) : BitVec width := BitVec.ofNat width (raw.toNat / 2 ^ off)

theorem toNat_field (raw : UInt32) (off width : Nat) :
    (field raw off width).toNat = raw.toNat / 2 ^ off % 2 ^ width :=
  BitVec.toNat_ofNat _ _

theorem getLsbD_field (raw : UInt32) (off width i : Nat) :
    (field raw off width).getLsbD i = (decide (i < width) && bit raw (off + i)) := by
  rw [field, BitVec.getLsbD_ofNat, Nat.testBit_div_two_pow, Nat.add_comm i off]
  rfl

theorem msb_field (raw : UInt32) (off : Nat) {width : Nat} (hw : 1 ≤ width) :
    (field raw off width).msb = bit raw (off + (width - 1)) := by
  rw [BitVec.msb_eq_getLsbD_last, getLsbD_field, decide_eq_true (by omega), Bool.true_and]

theorem toInt_eq_of_extends {x raw : UInt32} {off width : Nat} (hw : 1 ≤ width) (h32 : width ≤ 32)
    (hx : ∀ i < 32, bit x i = bit raw (off + min i (width - 1))) :
    x.toInt32.toInt = (field raw off width).toInt := by
  have hext : x.toBitVec = (field raw off width).signExtend 32 := by
    apply BitVec.eq_of_getLsbD_eq
    intro i hi
    change bit x i = _
    rw [hx i hi, BitVec.getLsbD_signExtend, decide_eq_true hi, Bool.true_and, getLsbD_field,
      msb_field raw off hw]
    split
    · rename_i hlt
      rw [decide_eq_true hlt, Bool.true_and, Nat.min_eq_left (by omega)]
    · rw [Nat.min_eq_right (by omega)]
  change x.toBitVec.toInt = _
  rw [hext, BitVec.toInt_signExtend_of_le h32]

theorem signExtend_toInt_field (raw : UInt32) {off width : UInt64} (hw : 1 ≤ width.toNat)
    (h : off.toNat + width.toNat ≤ 32) :
    (signExtend raw off width).toInt = (field raw off.toNat width.toNat).toInt ∧
      -2 ^ (width.toNat - 1) ≤ (signExtend raw off width).toInt ∧
      (signExtend raw off width).toInt < 2 ^ (width.toNat - 1) ∧
      ∀ raw', (∀ i, off.toNat ≤ i → i < off.toNat + width.toNat → bit raw' i = bit raw i) →
        signExtend raw' off width = signExtend raw off width := by
  have hvalue : ∀ r, (signExtend r off width).toInt = (field r off.toNat width.toNat).toInt :=
    fun r => toInt_eq_of_extends hw (by omega) fun i hi => bit_signExtend r hw h hi
  refine ⟨hvalue raw, ?_, ?_, ?_⟩
  · rw [hvalue]
    exact BitVec.le_toInt _
  · rw [hvalue]
    exact BitVec.toInt_lt
  · intro raw' hsame
    have hfield : field raw' off.toNat width.toNat = field raw off.toNat width.toNat := by
      apply BitVec.eq_of_getLsbD_eq
      intro i hi
      rw [getLsbD_field, getLsbD_field, hsame _ (Nat.le_add_right _ _) (by omega)]
    rw [← Int32.toInt_inj, hvalue, hvalue, hfield]

theorem signExtend_toInt_field_byte :
    1 ≤ (8 : UInt64).toNat ∧ (8 : UInt64).toNat + (8 : UInt64).toNat ≤ 32 ∧
      (signExtend 0xFFFFFB12 8 8).toInt = -5 ∧ signExtend 0x0000FB00 8 8 = -5 := by
  obtain ⟨hvalue, -, -, hsame⟩ :=
    @signExtend_toInt_field 0xFFFFFB12 8 8 (by decide) (by decide)
  refine ⟨by decide, by decide, hvalue.trans (by decide), ?_⟩
  have hbits : ∀ i < 16, 8 ≤ i → bit 0x0000FB00 i = bit 0xFFFFFB12 i := by decide
  rw [hsame 0x0000FB00 fun i hlo hhi => hbits i hhi hlo, ← Int32.toInt_inj, hvalue]
  decide

end Word

namespace Extract

open Word

def evaluate (e : Extract) (raw : UInt32) : UInt32 :=
  match e.op with
  | .word | .float | .int => raw
  | .mask => raw &&& e.mask
  | .shift => raw >>> e.shift
  | .shiftMask => (raw >>> e.shift) &&& e.mask
  | .intShift => (raw.toInt32 >>> e.shift.toInt32).toUInt32
  | .intPair => ((raw <<< e.up).toInt32 >>> e.shift.toInt32).toUInt32

variable {kind : ScalarKind} {offset : UInt32} (ha : offset.toNat % kind.size.toNat = 0)
include ha

theorem bits_plan_evaluate (raw : UInt32) :
    (plan offset kind).bits raw = (plan offset kind).evaluate raw := by
  by_cases hk : kind.size = 4
  · cases kind <;> first | rfl | exact absurd hk (by decide)
  cases hs : kind.isSigned with
  | false =>
    have hf : kind.isFloat = false := by cases kind <;> first | rfl | exact absurd rfl hk
    rcases ScalarKind.narrow_cases hk ha with ⟨hn, h | h | h | h⟩ | ⟨hn, h | h⟩ <;>
      simp [plan, bits, evaluate, hs, hf, hn, h]
  | true =>
    have hf : kind.isFloat = false := by cases kind <;> first | rfl | cases hs
    rw [bits_plan_signed hs hk ha]
    rcases ScalarKind.narrow_cases hk ha with ⟨hn, h | h | h | h⟩ | ⟨hn, h | h⟩ <;>
      simp [plan, evaluate, hs, hf, hn, h, signExtend, Word.shiftLeft]
    -- both shift the sign in, by 24 or by 16
    all_goals rfl

theorem plan_shifts_lt : (plan offset kind).shift < 32 ∧ (plan offset kind).up < 32 := by
  by_cases hk : kind.size = 4
  · cases kind <;> simp_all [plan, ScalarKind.size, ScalarKind.isFloat, ScalarKind.isSigned]
  have hf : kind.isFloat = false := by cases kind <;> first | rfl | exact absurd rfl hk
  cases hs : kind.isSigned <;>
    rcases ScalarKind.narrow_cases hk ha with ⟨hn, h | h | h | h⟩ | ⟨hn, h | h⟩ <;>
      simp [plan, hs, hf, hn, h]

theorem toNat_bits_plan (hs : kind.isSigned = false) (raw : UInt32) :
    ((plan offset kind).bits raw).toNat =
      (field raw (8 * (offset.toNat % 4)) (8 * kind.size.toNat)).toNat := by
  have hfit := kind.fits_word ha
  have hext : ((plan offset kind).bits raw).toBitVec =
      (field raw (8 * (offset.toNat % 4)) (8 * kind.size.toNat)).setWidth 32 := by
    apply BitVec.eq_of_getLsbD_eq
    intro i hi
    change bit _ i = _
    rw [bit_bits_plan ha raw hi, hs, Bool.false_and, BitVec.getLsbD_setWidth, decide_eq_true hi,
      Bool.true_and, getLsbD_field]
    split <;> simp [*]
  change (BitVec.toNat _) = _
  rw [hext, BitVec.toNat_setWidth_of_le (by omega)]

theorem toInt_bits_plan (hs : kind.isSigned = true) (raw : UInt32) :
    ((plan offset kind).bits raw).toInt32.toInt =
      (field raw (8 * (offset.toNat % 4)) (8 * kind.size.toNat)).toInt := by
  have hfit := kind.fits_word ha
  have hpos := kind.size_pos
  apply toInt_eq_of_extends (by omega) (by omega)
  intro i hi
  rw [bit_bits_plan ha raw hi, hs, Bool.true_and]
  split
  · rw [Nat.min_eq_left (by omega)]
  · rw [Nat.min_eq_right (by omega), Nat.add_sub_assoc (by omega)]

/-- A scalar that is aligned to its own width is the field of its word at its place, zero extended
or sign extended by its kind, and its plan says with which shifts and masks to compute it. -/
theorem plan_extracts_field (raw : UInt32) :
    (plan offset kind).word.toNat = offset.toNat / 4 ∧
      (kind.size = 4 → (plan offset kind).bits raw = raw) ∧
      (kind.isSigned = false → ((plan offset kind).bits raw).toNat =
        raw.toNat / 2 ^ (8 * (offset.toNat % 4)) % 2 ^ (8 * kind.size.toNat)) ∧
      (kind.isSigned = true → ((plan offset kind).bits raw).toInt32.toInt =
        (field raw (8 * (offset.toNat % 4)) (8 * kind.size.toNat)).toInt) ∧
      (plan offset kind).bits raw = (plan offset kind).evaluate raw ∧
      (plan offset kind).shift < 32 ∧ (plan offset kind).up < 32 := by
  refine ⟨?_, ?_, ?_, ?_, bits_plan_evaluate ha raw, plan_shifts_lt ha⟩
  · rw [plan_word, toNat_div_four]
  · intro hk
    exact bits_plan_whole hk offset raw
  · intro hs
    rw [toNat_bits_plan ha hs, toNat_field]
  · intro hs
    exact toInt_bits_plan ha hs raw

omit ha in
theorem plan_extracts_field_byte :
    (9 : UInt32).toNat % ScalarKind.i8.size.toNat = 0 ∧ (plan 9 .i8).word.toNat = 2 ∧
      ((plan 9 .i8).bits 0x1234FB78).toInt32.toInt = -5 ∧
      (plan 9 .i8).evaluate 0x1234FB78 = (plan 9 .i8).bits 0x1234FB78 ∧
      ((plan 9 .u8).bits 0x1234FB78).toNat = 251 := by
  obtain ⟨hword, -, -, hsigned, hvalue, -⟩ :=
    @plan_extracts_field .i8 9 (by decide) 0x1234FB78
  obtain ⟨-, -, hunsigned, -⟩ :=
    @plan_extracts_field .u8 9 (by decide) 0x1234FB78
  exact ⟨by decide, hword, (hsigned rfl).trans (by decide), hvalue.symm, hunsigned rfl⟩

end Extract

end WordLayout
