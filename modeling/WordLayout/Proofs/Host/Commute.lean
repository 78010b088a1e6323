import Mathlib
import WordLayout.Proofs.Host.Outcome

/-!
Writes to disjoint places. What a write stores depends on its value and not on the buffer, and it
stays inside the bytes of the value. So two writes with no byte in common can change places, and
neither can be seen where the other one writes.
-/

namespace WordLayout.Host

open Word Coverage Validation

inductive WriteOp
  | struct (offset : UInt32) (h : Handle) (values : List Value)
  | variant (h : Handle) (tag offset : UInt32) (payload : Option (Handle × List Value))

namespace WriteOp

def target : WriteOp → Handle
  | .struct _ h _ => h
  | .variant h _ _ _ => h

def offset : WriteOp → UInt32
  | .struct offset _ _ => offset
  | .variant _ _ offset _ => offset

def bytes (m : Module) (op : WriteOp) : Finset Nat :=
  Finset.Ico op.offset.toNat (op.offset.toNat + (m.sizeOf (.inline op.target)).toNat)

def result (op : WriteOp) (b : Buffer) : Except Fault Buffer :=
  match op with
  | .struct offset h values => b.writeStruct offset h values
  | .variant h tag offset payload => b.writeVariant h tag offset payload

def program : WriteOp → EStateM Fault Buffer Unit
  | .struct offset h values => InPlace.writeStruct offset h values
  | .variant h tag offset payload => InPlace.writeVariant h tag offset payload

def attempt (op : WriteOp) (b : Buffer) : Option Fault × Buffer :=
  match op.program.run b with
  | .ok _ b' => (none, b')
  | .error f b' => (some f, b')

theorem attempt_eq (op : WriteOp) (b : Buffer) :
    op.attempt b =
      match op.result b with
      | .ok b' => (none, b')
      | .error f => (some f, b) := by
  have hrun : op.program.run b = InPlace.settle b (op.result b) := by
    cases op with
    | struct offset h values => exact InPlace.run_writeStruct b offset h values
    | variant h tag offset payload => exact InPlace.run_writeVariant b h tag offset payload
  rw [attempt, hrun]
  cases op.result b <;> rfl

end WriteOp

/-- Two writes that can change places: each of them ends in the same way in both orders, both orders
leave the same buffer, and neither changes what is read where the other one writes. -/
structure Commutes (b : Buffer) (x y : WriteOp) : Prop where
  first : (x.attempt b).1 = (x.attempt (y.attempt b).2).1
  second : (y.attempt b).1 = (y.attempt (x.attempt b).2).1
  buffer : (y.attempt (x.attempt b).2).2 = (x.attempt (y.attempt b).2).2
  readStruct_first : (y.attempt b).2.readStruct x.target x.offset = b.readStruct x.target x.offset
  readStruct_second : (x.attempt b).2.readStruct y.target y.offset = b.readStruct y.target y.offset
  readUnion_first : (y.attempt b).2.readUnion x.target x.offset = b.readUnion x.target x.offset
  readUnion_second : (x.attempt b).2.readUnion y.target y.offset = b.readUnion y.target y.offset

section effects

def SameEffect (own : Prop) (old old' new new' : UInt32) : Prop :=
  (own ∧ new = new') ∨ (new = old ∧ new' = old')

theorem SameEffect.trans {own : Prop} {old old' mid mid' new new' : UInt32}
    (h : SameEffect own old old' mid mid') (h' : SameEffect own mid mid' new new') :
    SameEffect own old old' new new' := by
  rcases h' with h' | ⟨rfl, rfl⟩
  · exact .inl h'
  · exact h

theorem Stored.sameEffect {m : Module} {ty : Ty} {a j : Nat} {v : Value}
    {old old' new new' : Array UInt32} (h : Stored m ty a v old new)
    (h' : Stored m ty a v old' new') {own : Prop} (hown : Touches m ty a j → own) :
    SameEffect own (old.getD j 0) (old'.getD j 0) (new.getD j 0) (new'.getD j 0) := by
  by_cases hj : Touches m ty a j
  · exact .inl ⟨hown hj, h.agree h' hj⟩
  · exact .inr ⟨h.kept j hj, h'.kept j hj⟩

theorem set!_sameEffect {words words' : Array UInt32} (hsize : words'.size = words.size) {i : Nat}
    (hi : i < words.size) (w : UInt32) {own : Prop} {j : Nat} (hown : i = j → own) :
    SameEffect own (words.getD j 0) (words'.getD j 0) ((words.set! i w).getD j 0)
      ((words'.set! i w).getD j 0) := by
  rw [getD_set! _ hi, getD_set! _ (hsize ▸ hi)]
  by_cases hj : i = j
  · rw [if_pos hj, if_pos hj]
    exact .inl ⟨hown hj, rfl⟩
  · rw [if_neg hj, if_neg hj]
    exact .inr ⟨rfl, rfl⟩

variable {b b' c c' : Buffer} (hm : b.module.WellFormed) (hmod : b'.module = b.module)
  (hsize : b'.words.size = b.words.size)

theorem mem_bytes_of_inWindow (op : WriteOp) {d : TypeDef} (hd : b.module.def? op.target = some d)
    (ha : op.offset.toNat % 4 = 0) {j : Nat} (hj : InWindow d op.offset.toNat j) :
    4 * j ∈ op.bytes b.module := by
  have hsize : b.module.sizeOf (.inline op.target) = d.size := by simp [Module.sizeOf, hd]
  obtain ⟨hlo, hhi⟩ := hj
  rw [WriteOp.bytes, Finset.mem_Ico, hsize]
  constructor <;> omega

include hm hmod

theorem writeStruct_sameEffect {offset : UInt32} {h : Handle} {values : List Value}
    (he : b.writeStruct offset h values = .ok c) (he' : b'.writeStruct offset h values = .ok c')
    (j : Nat) :
    SameEffect (4 * j ∈ (WriteOp.struct offset h values).bytes b.module) (b.words.getD j 0)
      (b'.words.getD j 0) (c.words.getD j 0) (c'.words.getD j 0) := by
  obtain ⟨d, fields, scratch, hd, hb, hin, hscratch, rfl⟩ := writeStruct_eq_ok_iff.mp he
  obtain ⟨d', fields', scratch', hd', hb', hin', hscratch', rfl⟩ := writeStruct_eq_ok_iff.mp he'
  have hst := (encodeWindow_stored hm hd hb hin hscratch).2
  have hst' := (encodeWindow_stored (hmod ▸ hm) hd' hb' hin' hscratch').2
  rw [hmod] at hst'
  apply hst.sameEffect hst'
  intro hj
  exact mem_bytes_of_inWindow (.struct offset h values) hd hin.1 (hj.inWindow hm hd hin.1)

include hsize

theorem writeVariant_sameEffect {h : Handle} {tag offset : UInt32}
    {payload : Option (Handle × List Value)} (he : b.writeVariant h tag offset payload = .ok c)
    (he' : b'.writeVariant h tag offset payload = .ok c') (j : Nat) :
    SameEffect (4 * j ∈ (WriteOp.variant h tag offset payload).bytes b.module) (b.words.getD j 0)
      (b'.words.getD j 0) (c.words.getD j 0) (c'.words.getD j 0) := by
  obtain ⟨d, variants, v, place, hd, hb, hin, hv, hplace, -, hst⟩ := writeVariant_stored hm he
  obtain ⟨d', variants', v', place', hd', hb', -, hv', hplace', -, hst'⟩ :=
    writeVariant_stored (hmod ▸ hm) he'
  rw [hmod] at hd' hst'
  obtain rfl := Option.some.inj (hd.symm.trans hd')
  obtain rfl := Body.union.inj (hb.symm.trans hb')
  obtain rfl := Option.some.inj (hv.symm.trans hv')
  obtain rfl := hplace.unique hplace'
  have hs := hm.union hd hb
  have hroom := hs.room
  have hlt : offset.toNat / 4 < b.words.size := by
    obtain ⟨-, hbound⟩ := hin
    omega
  have hown : InWindow d offset.toNat j →
      4 * j ∈ (WriteOp.variant h tag offset payload).bytes b.module :=
    fun hj => mem_bytes_of_inWindow (.variant h tag offset payload) hd hin.1 hj
  -- the tag is stored first, and then the payload
  refine (set!_sameEffect hsize hlt tag fun hj => hown ⟨by omega, by omega⟩).trans ?_
  cases hst with
  | none hnew =>
    cases hst' with
    | none hnew' =>
      rw [hnew, hnew']
      exact .inr ⟨rfl, rfl⟩
  | @struct at_ t values _ _ hst =>
    cases hst' with
    | struct _ hst' =>
      have hps := hplace.sound (List.mem_of_getElem? hv) hs
      obtain ⟨e, -, hte, -, -⟩ := hm.struct_of_known hps.known
      have ha := hps.aligned
      have ho := hin.1
      apply hst.sameEffect hst'
      intro hj
      exact hown (PayloadSound.inWindow hps hte hin.1 (hj.inWindow hm hte (by omega)))

end effects

section attempts

variable {b b' : Buffer} (hm : b.module.WellFormed) (hmod : b'.module = b.module)
  (hsize : b'.words.size = b.words.size)
include hm

theorem attempt_frame (op : WriteOp) :
    (op.attempt b).2.module = b.module ∧ (op.attempt b).2.words.size = b.words.size := by
  rw [WriteOp.attempt_eq]
  cases he : op.result b with
  | error f => exact ⟨rfl, rfl⟩
  | ok c =>
    cases op with
    | struct offset h values =>
      have hframe := writeStruct_frame hm he
      exact ⟨hframe.module_eq, hframe.size_eq⟩
    | variant h tag offset payload =>
      have hframe := writeVariant_frame hm he
      exact ⟨hframe.module_eq, hframe.size_eq⟩

include hmod hsize

theorem result_alike (op : WriteOp) : Alike (fun _ _ => True) (op.result b) (op.result b') := by
  cases op with
  | struct offset h values => exact writeStruct_alike hm hmod hsize values
  | variant h tag offset payload => exact writeVariant_alike hm hmod hsize tag payload

theorem attempt_outcome (op : WriteOp) : (op.attempt b).1 = (op.attempt b').1 := by
  have halike := result_alike hm hmod hsize op
  rw [WriteOp.attempt_eq, WriteOp.attempt_eq]
  generalize op.result b = r at halike
  generalize op.result b' = r' at halike
  cases halike with
  | ok => rfl
  | refused e => rfl

theorem attempt_sameEffect (op : WriteOp) (j : Nat) :
    SameEffect (4 * j ∈ op.bytes b.module) (b.words.getD j 0) (b'.words.getD j 0)
      ((op.attempt b).2.words.getD j 0) ((op.attempt b').2.words.getD j 0) := by
  have halike := result_alike hm hmod hsize op
  rw [WriteOp.attempt_eq, WriteOp.attempt_eq]
  generalize he : op.result b = r at halike
  generalize he' : op.result b' = r' at halike
  cases halike with
  | refused e => exact .inr ⟨rfl, rfl⟩
  | ok =>
    cases op with
    | struct offset h values => exact writeStruct_sameEffect hm hmod he he' j
    | variant h tag offset payload => exact writeVariant_sameEffect hm hmod hsize he he' j

omit hmod hsize in
theorem attempt_kept (op : WriteOp) {j : Nat} (hj : 4 * j ∉ op.bytes b.module) :
    (op.attempt b).2.words.getD j 0 = b.words.getD j 0 := by
  rcases attempt_sameEffect hm rfl rfl op j with ⟨hmem, -⟩ | ⟨hkept, -⟩
  · exact absurd hmem hj
  · exact hkept

end attempts

section pairs

variable {b : Buffer} (hm : b.module.WellFormed) (hw : b.words.size ≤ 2 ^ 30) {x y : WriteOp}
  (hdisj : Disjoint (x.bytes b.module) (y.bytes b.module))
include hm hdisj

theorem attempt_comm : (y.attempt (x.attempt b).2).2 = (x.attempt (y.attempt b).2).2 := by
  obtain ⟨hxm, hxs⟩ := attempt_frame hm x
  obtain ⟨hym, hys⟩ := attempt_frame hm y
  obtain ⟨hxym, hxys⟩ := attempt_frame (hxm ▸ hm) y
  obtain ⟨hyxm, hyxs⟩ := attempt_frame (hym ▸ hm) x
  have hwords : (y.attempt (x.attempt b).2).2.words = (x.attempt (y.attempt b).2).2.words := by
    apply words_ext (hxys.trans (hxs.trans (hyxs.trans hys).symm))
    intro j
    by_cases hj : 4 * j ∈ x.bytes b.module
    · have hjy := Finset.disjoint_left.mp hdisj hj
      rw [attempt_kept (hxm ▸ hm) y (hxm ▸ hjy)]
      rcases attempt_sameEffect hm hym hys x j with ⟨-, heq⟩ | ⟨hkept, hkept'⟩
      · exact heq
      · rw [hkept, hkept', attempt_kept hm y hjy]
    · rw [attempt_kept (hym ▸ hm) x (hym ▸ hj)]
      rcases attempt_sameEffect hm hxm hxs y j with ⟨-, heq⟩ | ⟨hkept, hkept'⟩
      · exact heq.symm
      · rw [hkept, hkept', attempt_kept hm x hj]
  have hmodule : (y.attempt (x.attempt b).2).2.module = (x.attempt (y.attempt b).2).2.module :=
    hxym.trans (hxm.trans (hyxm.trans hym).symm)
  cases hl : (y.attempt (x.attempt b).2).2
  cases hr : (x.attempt (y.attempt b).2).2
  rw [hl, hr] at hwords hmodule
  congr

theorem attempt_sameAt : SameAt b (x.attempt b).2 y.target y.offset := by
  intro d hd hin j hj
  have hmem := mem_bytes_of_inWindow y hd hin.1 hj
  exact attempt_kept hm x (Finset.disjoint_right.mp hdisj hmem)

include hw

theorem commutes_of_disjoint : Commutes b x y := by
  obtain ⟨hxm, hxs⟩ := attempt_frame hm x
  obtain ⟨hym, hys⟩ := attempt_frame hm y
  have hsame := attempt_sameAt hm hdisj
  have hsame' := attempt_sameAt hm hdisj.symm
  refine ⟨attempt_outcome hm hym hys x, attempt_outcome hm hxm hxs y, attempt_comm hm hdisj,
    ?_, ?_, ?_, ?_⟩
  · exact (readStruct_alike hm hw hym hys hsame').eq.symm
  · exact (readStruct_alike hm hw hxm hxs hsame).eq.symm
  · exact (readUnion_alike hm hw hym hys hsame').eq.symm
  · exact (readUnion_alike hm hw hxm hxs hsame).eq.symm

end pairs

theorem index_toNat {b : Buffer} {h : Handle} {base i : UInt32}
    (hpos : 0 < (b.module.sizeOf (.inline h)).toNat)
    (hend : base.toNat + (i.toNat + 1) * (b.module.sizeOf (.inline h)).toNat ≤ 2 ^ 32) :
    (b.index h base i).toNat = base.toNat + i.toNat * (b.module.sizeOf (.inline h)).toNat := by
  rw [Nat.add_mul, Nat.one_mul] at hend
  rw [Buffer.index, UInt32.toNat_add, UInt32.toNat_mul,
    Nat.mod_eq_of_lt (a := i.toNat * _) (by omega), Nat.mod_eq_of_lt (by omega)]

theorem disjoint_elements {b : Buffer} {x y : WriteOp} {h : Handle} {base i j : UInt32}
    (hij : i.toNat < j.toNat) (hx : x.target = h) (hy : y.target = h) (hxo : x.offset = b.index h base i)
    (hyo : y.offset = b.index h base j)
    (hend : base.toNat + (j.toNat + 1) * (b.module.sizeOf (.inline h)).toNat ≤ 2 ^ 32) :
    Disjoint (x.bytes b.module) (y.bytes b.module) := by
  rw [WriteOp.bytes, WriteOp.bytes, hx, hy, hxo, hyo]
  rcases Nat.eq_zero_or_pos (b.module.sizeOf (.inline h)).toNat with hzero | hpos
  · simp [hzero]
  · have hle : (i.toNat + 1) * (b.module.sizeOf (.inline h)).toNat ≤
        j.toNat * (b.module.sizeOf (.inline h)).toNat := Nat.mul_le_mul_right _ hij
    have hstep : j.toNat * (b.module.sizeOf (.inline h)).toNat ≤
        (j.toNat + 1) * (b.module.sizeOf (.inline h)).toNat :=
      Nat.mul_le_mul_right _ (Nat.le_succ _)
    rw [index_toNat hpos (by omega), index_toNat hpos hend, Finset.disjoint_left]
    rw [Nat.add_mul, Nat.one_mul] at hle
    intro k hk hk'
    rw [Finset.mem_Ico] at hk hk'
    omega

/-- Writes with no byte in common can change places, and so can writes to different elements of an
array whose end does not wrap around. -/
theorem disjoint_writes_commute {b : Buffer} (hv : b.module.validate = [])
    (hx : b.module.ExactEnds) (hw : b.words.size ≤ 2 ^ 30) (x y : WriteOp) :
    (Disjoint (x.bytes b.module) (y.bytes b.module) → Commutes b x y) ∧
    ∀ (h : Handle) (base i j : UInt32), i ≠ j → x.target = h → y.target = h →
      x.offset = b.index h base i → y.offset = b.index h base j →
      base.toNat + (max i.toNat j.toNat + 1) * (b.module.sizeOf (.inline h)).toNat ≤ 2 ^ 32 →
      Commutes b x y := by
  have hm := wellFormed_of_validate hv hx
  refine ⟨commutes_of_disjoint hm hw, ?_⟩
  intro h base i j hij hxt hyt hxo hyo hend
  apply commutes_of_disjoint hm hw
  rcases Nat.lt_or_gt_of_ne (mt UInt32.toNat_inj.mp hij) with hlt | hlt
  · rw [max_eq_right hlt.le] at hend
    exact disjoint_elements hlt hxt hyt hxo hyo hend
  · rw [max_eq_left hlt.le] at hend
    exact (disjoint_elements hlt hyt hxt hyo hxo hend).symm

theorem disjoint_writes_commute_sample :
    sampleModule.validate = [] ∧ sampleModule.ExactEnds ∧
      Commutes ⟨sampleModule, Array.replicate 8 0xFFFFFFFF⟩ (.struct 0 1 sampleFields)
        (.variant 2 1 20 (some (0, samplePacked))) ∧
      Commutes ⟨sampleModule, Array.replicate 8 0xFFFFFFFF⟩ (.struct 4 0 samplePacked)
        (.struct 20 0 [.i8 (-5), .u16 513]) := by
  have hx : sampleModule.ExactEnds := by decide
  have hcommute := disjoint_writes_commute
    (b := ⟨sampleModule, Array.replicate 8 0xFFFFFFFF⟩) sampleModule_accepted hx (by decide)
  refine ⟨sampleModule_accepted, hx, ?_, ?_⟩
  · apply (hcommute _ _).1
    decide
  · exact (hcommute _ _).2 0 4 0 2 (by decide) rfl rfl (by decide) (by decide) (by decide)

end WordLayout.Host
