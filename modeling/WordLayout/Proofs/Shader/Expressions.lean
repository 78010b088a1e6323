import Mathlib
import WordLayout.Shader.Accessors
import WordLayout.Proofs.BitPlan
import WordLayout.Proofs.Shader.Execution

namespace WordLayout.Shader

open Word

section extract

variable {fr : Frame} {offset w : UInt32} {k : ScalarKind}

theorem eval_extractExpr_whole (hk : k.size = 4) (hraw : fr.raws.lookup (offset / 4) = some w) :
    (extractExpr offset k).eval fr = some (.ofKind k w) := by
  cases k <;> first
    | exact absurd hk (by decide)
    | simp [extractExpr, Extract.plan, ScalarKind.isFloat, ScalarKind.isSigned, ScalarKind.size,
        Expr.eval, hraw, Value.ofKind]

theorem eval_extractExpr_unsigned (hs : k.isSigned = false) (hk : k.size ≠ 4)
    (ha : offset.toNat % k.size.toNat = 0) (hraw : fr.raws.lookup (offset / 4) = some w) :
    (extractExpr offset k).eval fr = some (.uint ((Extract.plan offset k).bits w)) := by
  have hf : k.isFloat = false := by cases k <;> first | rfl | exact absurd rfl hk
  rcases ScalarKind.narrow_cases hk ha with ⟨hn, h | h | h | h⟩ | ⟨hn, h | h⟩ <;>
    simp [extractExpr, Extract.plan, Extract.bits, hs, hf, hn, h, Expr.eval, Expr.isPrimary, hraw]

theorem eval_extractExpr_signed (hs : k.isSigned = true) (hk : k.size ≠ 4)
    (ha : offset.toNat % k.size.toNat = 0) (hraw : fr.raws.lookup (offset / 4) = some w) :
    (extractExpr offset k).eval fr = some (.int ((Extract.plan offset k).bits w)) := by
  have hf : k.isFloat = false := by cases k <;> first | rfl | cases hs
  rw [Extract.bits_plan_signed hs hk ha]
  rcases ScalarKind.narrow_cases hk ha with ⟨hn, h | h | h | h⟩ | ⟨hn, h | h⟩ <;>
    simp [extractExpr, Extract.plan, hs, hf, hn, h, Expr.eval, Expr.isPrimary, hraw, signExtend,
      Word.shiftLeft]

theorem eval_extractExpr (ha : offset.toNat % k.size.toNat = 0)
    (hraw : fr.raws.lookup (offset / 4) = some w) :
    (extractExpr offset k).eval fr = some (.ofKind k ((Extract.plan offset k).bits w)) := by
  by_cases hk : k.size = 4
  · rw [eval_extractExpr_whole hk hraw, Extract.bits_plan_whole hk]
  · have hf : k.isFloat = false := by cases k <;> first | rfl | exact absurd rfl hk
    cases hs : k.isSigned with
    | false => simp [eval_extractExpr_unsigned hs hk ha hraw, Value.ofKind, hs, hf]
    | true => simp [eval_extractExpr_signed hs hk ha hraw, Value.ofKind, hs, hf]

end extract

section insert

variable {fr : Frame} {x : UInt32} {k : ScalarKind} {value : Expr}

def Operand (fr : Frame) (e : Expr) (x : UInt32) : Prop :=
  e.eval fr = some (.uint x) ∧ e.isPrimary = true

theorem Operand.part {e : Expr} (h : Operand fr e x) : e.part fr = some x := by
  simp [Expr.part, h.1, h.2]

theorem Operand.mask {e : Expr} (h : Operand fr e x) (bits : UInt32) :
    Operand fr (.group (.mask e bits)) (x &&& bits) := by
  refine ⟨?_, rfl⟩
  simp [Expr.eval, h.1, h.2]

theorem Operand.shiftLeft {e : Expr} (h : Operand fr e x) {n : UInt32} (hn : n < 32) :
    Operand fr (.group (.shiftLeft e n)) (x <<< n) := by
  refine ⟨?_, rfl⟩
  simp [Expr.eval, h.1, h.2, hn]

theorem operand_bits (hv : value.eval fr = some (.ofKind k x)) (hprim : value.isPrimary = true) :
    Operand fr (if k.isFloat then .floatToBits value else if k.isSigned then .intToBits value
      else value) x := by
  unfold Value.ofKind at hv
  split
  · rename_i hf
    rw [if_pos hf] at hv
    exact ⟨by simp [Expr.eval, hv], rfl⟩
  · rename_i hf
    rw [if_neg hf] at hv
    split
    · rename_i hs
      rw [if_pos hs] at hv
      exact ⟨by simp [Expr.eval, hv], rfl⟩
    · rename_i hs
      rw [if_neg hs] at hv
      exact ⟨hv, hprim⟩

theorem plan_shift_lt (offset : UInt32) (k : ScalarKind) (maskUnsigned : Bool) :
    (Insert.plan offset k maskUnsigned).shift < 32 := by
  have hlt : offset % 4 * 8 < 32 := by
    rcases mod_four_cases offset with h | h | h | h <;> rw [h] <;> decide
  simp only [Insert.plan]
  repeat' split
  all_goals exact hlt

theorem part_insertExpr (maskUnsigned : Bool) (offset : UInt32)
    (hv : value.eval fr = some (.ofKind k x)) (hprim : value.isPrimary = true) :
    (insertExpr maskUnsigned offset k value).part fr =
      some ((Insert.plan offset k maskUnsigned).bits x) := by
  have hshift := plan_shift_lt offset k maskUnsigned
  have hbits := operand_bits hv hprim
  simp only [insertExpr, Insert.bits]
  generalize Insert.plan offset k maskUnsigned = i at hshift
  by_cases hmask : i.mask = 0
  · simp only [hmask, if_true]
    by_cases hs : i.shift = 0
    · simp only [hs, if_true]
      rw [hbits.part, UInt32.shiftLeft_zero]
    · simp only [hs, if_false]
      rw [(hbits.shiftLeft hshift).part]
  · simp only [hmask, if_false]
    by_cases hs : i.shift = 0
    · simp only [hs, if_true]
      rw [(hbits.mask i.mask).part, UInt32.shiftLeft_zero]
    · simp only [hs, if_false]
      rw [((hbits.mask i.mask).shiftLeft hshift).part]

end insert

end WordLayout.Shader
