import Mathlib
import WordLayout.Proofs.Coverage.Modes

namespace WordLayout

open Word

/-- A value as a kind holds it: its low bits, extended by the sign or by zeros. -/
def ScalarKind.narrow (k : ScalarKind) (value : UInt32) : UInt32 :=
  let low := value.toBitVec.setWidth (8 * k.size.toNat)
  ⟨if k.isSigned then low.signExtend 32 else low.setWidth 32⟩

namespace ScalarKind

theorem bit_narrow (k : ScalarKind) (value : UInt32) {i : Nat} (hi : i < 32) :
    bit (k.narrow value) i =
      if i < 8 * k.size.toNat then bit value i
      else k.isSigned && bit value (8 * k.size.toNat - 1) := by
  have hpos := k.size_pos
  cases hs : k.isSigned with
  | false => by_cases h : i < 8 * k.size.toNat <;> simp [bit, narrow, hs, h, hi]
  | true =>
    simp only [bit, narrow, hs, if_true, BitVec.getLsbD_signExtend, hi, decide_true,
      Bool.true_and, BitVec.getLsbD_setWidth, BitVec.msb_eq_getLsbD_last]
    by_cases h : i < 8 * k.size.toNat
    · rw [if_pos h, if_pos h, decide_eq_true h, Bool.true_and]
    · rw [if_neg h, if_neg h, decide_eq_true (by omega), Bool.true_and]

example : (i8.narrow 0x7FFFFF80, u8.narrow 0xABCDEF12) = (0xFFFFFF80, 0x12) := by decide

theorem narrow_whole {k : ScalarKind} (hk : k.size = 4) (value : UInt32) :
    k.narrow value = value := by
  have hwidth : 8 * k.size.toNat = 32 := by rw [hk]; rfl
  apply eq_of_bit
  intro i hi
  rw [bit_narrow k value hi, if_pos (hwidth ▸ hi)]

end ScalarKind

namespace Piece

def bits (p : Piece) : Finset Nat :=
  Finset.Ico p.shift.toNat (p.shift.toNat + 8 * p.size.toNat)

def kind? (fields : List Field) (p : Piece) : Option ScalarKind :=
  fields[p.field]?.bind fun f => f.ty.leaf?.map Prod.fst

theorem shift_toNat (p : Piece) : p.shift.toNat = 8 * (p.offset.toNat % 4) := by
  simp only [shift, UInt32.toNat_mul, UInt32.toNat_mod, UInt32.reduceToNat]
  omega

end Piece

namespace Coverage

def pack (fields : List Field) (maskUnsigned : Bool) (value : Piece → UInt32) (g : Group) :
    UInt32 :=
  let shares := g.raw.pieces.filterMap fun p => (p.kind? fields).map fun k =>
    (Insert.plan p.offset k maskUnsigned).bits (value p)
  shares.foldl (· ||| ·) 0

structure Packed (fields : List Field) (value : Piece → UInt32) (g : Group) (word : UInt32) :
    Prop where
  recovered : ∀ p ∈ g.raw.pieces, ∃ k, p.kind? fields = some k ∧
    (Extract.plan p.offset k).bits word = k.narrow (value p) ∧
    (k.size = 4 → (Extract.plan p.offset k).bits word = value p)
  gaps : ∀ i < 32, (∀ p ∈ g.raw.pieces, i ∉ p.bits) → bit word i = false

section places

variable {m : Module} {h : Handle} {size : UInt32} {fields : List Field} {mode : Mode} {g : Group}
  (hs : StructSound m h size fields) (ha : size.toNat % 4 = 0)
  (hg : g ∈ resolve fields size mode)
include hs ha hg

theorem scalarPiece_of_raw {p : Piece} (hp : p ∈ g.raw.pieces) : ScalarPiece fields p := by
  obtain ⟨hp, hraw⟩ := List.mem_filter.mp hp
  exact (mem_pieces_raw_iff hs ha mode).mp ⟨(of_mem_group hg hp).1, hraw⟩

theorem kind?_of_raw {p : Piece} (hp : p ∈ g.raw.pieces) :
    ∃ k, p.kind? fields = some k ∧ p.size = k.size ∧ p.offset.toNat % k.size.toNat = 0 := by
  obtain ⟨i, f, k, n, lane, hf, hl, hlane, rfl⟩ := scalarPiece_of_raw hs ha hg hp
  have hpl := hs.placed f (List.mem_of_getElem? hf)
  have halign := hpl.laneOffset_aligned hl lane
  rw [← hpl.laneOffset_toNat hl hlane] at halign
  exact ⟨k, by simp [Piece.kind?, leafPiece, hf, hl], rfl, halign⟩

omit ha hg in
theorem scalarPiece_apart {p q : Piece} (hp : ScalarPiece fields p) (hq : ScalarPiece fields q)
    (hne : p ≠ q) : p.offset.toNat + p.size.toNat ≤ q.offset.toNat ∨
      q.offset.toNat + q.size.toNat ≤ p.offset.toNat := by
  obtain ⟨i, f, k, n, lane, hf, hl, hlane, rfl⟩ := hp
  obtain ⟨j, f', k', n', lane', hf', hl', hlane', rfl⟩ := hq
  have hpl := hs.placed f (List.mem_of_getElem? hf)
  have hpl' := hs.placed f' (List.mem_of_getElem? hf')
  have hoff := hpl.laneOffset_toNat hl hlane
  have hoff' := hpl'.laneOffset_toNat hl' hlane'
  simp only [leafPiece, hoff, hoff']
  by_cases hij : i = j
  · -- lanes of one vector follow each other
    subst hij
    obtain rfl := Option.some.inj (hf.symm.trans hf')
    obtain ⟨rfl, rfl⟩ := Prod.mk.inj (Option.some.inj (hl.symm.trans hl'))
    have hlanes : lane ≠ lane' := by
      rintro rfl
      exact hne rfl
    rcases Nat.lt_or_gt_of_ne hlanes with hlt | hlt
    · have hmul : (lane + 1) * k.size.toNat ≤ lane' * k.size.toNat := Nat.mul_le_mul_right _ hlt
      rw [Nat.add_mul, Nat.one_mul] at hmul
      omega
    · have hmul : (lane' + 1) * k.size.toNat ≤ lane * k.size.toNat := Nat.mul_le_mul_right _ hlt
      rw [Nat.add_mul, Nat.one_mul] at hmul
      omega
  · have hap := hs.apart_of_ne hf hf' hij
    have hstop := hpl.lane_stop_le hl hlane
    have hstop' := hpl'.lane_stop_le hl' hlane'
    rcases hap with hle | hle <;> omega

theorem eq_of_mem_bits {p q : Piece} (hp : p ∈ g.raw.pieces) (hq : q ∈ g.raw.pieces) {i : Nat}
    (hip : i ∈ p.bits) (hiq : i ∈ q.bits) : p = q := by
  by_contra hne
  have hword : p.word = q.word :=
    (of_mem_group hg (List.mem_filter.mp hp).1).2.symm.trans
      (of_mem_group hg (List.mem_filter.mp hq).1).2
  have hdiv := congrArg UInt32.toNat hword
  rw [Piece.word, Piece.word, toNat_div_four, toNat_div_four] at hdiv
  rw [Piece.bits, Finset.mem_Ico, Piece.shift_toNat] at hip hiq
  rcases scalarPiece_apart hs (scalarPiece_of_raw hs ha hg hp) (scalarPiece_of_raw hs ha hg hq)
    hne with hle | hle <;> omega

end places

section packing

variable {m : Module} {h : Handle} {size : UInt32} {fields : List Field} {g : Group}
  {maskUnsigned : Bool} {value : Piece → UInt32}
  (hs : StructSound m h size fields) (ha : size.toNat % 4 = 0)
  (hg : g ∈ resolve fields size .write)
  (hr : ∀ p ∈ g.raw.pieces, ∀ k, p.kind? fields = some k → Insert.InRange k maskUnsigned (value p))
include hs ha hg hr

theorem bit_pack_iff {i : Nat} (hi : i < 32) :
    bit (pack fields maskUnsigned value g) i = true ↔
      ∃ p ∈ g.raw.pieces, i ∈ p.bits ∧ bit (value p) (i - p.shift.toNat) = true := by
  have hshare : ∀ p ∈ g.raw.pieces, ∀ k, p.kind? fields = some k →
      (bit ((Insert.plan p.offset k maskUnsigned).bits (value p)) i = true ↔
        i ∈ p.bits ∧ bit (value p) (i - p.shift.toNat) = true) := by
    intro p hp k hk
    obtain ⟨k', hk', hsize, halign⟩ := kind?_of_raw hs ha hg hp
    obtain rfl := Option.some.inj (hk.symm.trans hk')
    rw [Insert.bit_bits_plan halign (hr p hp k hk) hi, Bool.and_eq_true, decide_eq_true_eq,
      Piece.bits, Finset.mem_Ico, Piece.shift_toNat, hsize]
  rw [pack, bit_foldl_or, bit_zero]
  simp only [Bool.false_eq_true, false_or, List.mem_filterMap, Option.map_eq_some_iff]
  constructor
  · rintro ⟨x, ⟨p, hp, k, hk, rfl⟩, hbit⟩
    exact ⟨p, hp, (hshare p hp k hk).mp hbit⟩
  · rintro ⟨p, hp, hbit⟩
    obtain ⟨k, hk, -⟩ := kind?_of_raw hs ha hg hp
    exact ⟨_, ⟨p, hp, k, hk, rfl⟩, (hshare p hp k hk).mpr hbit⟩

theorem bit_pack_of_mem {p : Piece} (hp : p ∈ g.raw.pieces) {i : Nat} (hi : i < 32)
    (hin : i ∈ p.bits) :
    bit (pack fields maskUnsigned value g) i = bit (value p) (i - p.shift.toNat) := by
  rw [Bool.eq_iff_iff, bit_pack_iff hs ha hg hr hi]
  constructor
  · rintro ⟨q, hq, hiq, hbit⟩
    rwa [eq_of_mem_bits hs ha hg hp hq hin hiq]
  · intro hbit
    exact ⟨p, hp, hin, hbit⟩

theorem packed_pack : Packed fields value g (pack fields maskUnsigned value g) where
  recovered p hp := by
    obtain ⟨k, hk, hsize, halign⟩ := kind?_of_raw hs ha hg hp
    have hfit := k.fits_word halign
    have hpos := k.size_pos
    have hown : ∀ j < 8 * k.size.toNat,
        bit (pack fields maskUnsigned value g) (8 * (p.offset.toNat % 4) + j) =
          bit (value p) j := by
      intro j hj
      have hin : 8 * (p.offset.toNat % 4) + j ∈ p.bits := by
        rw [Piece.bits, Finset.mem_Ico, Piece.shift_toNat, hsize]
        omega
      rw [bit_pack_of_mem hs ha hg hr hp (by omega) hin, Piece.shift_toNat, Nat.add_sub_cancel_left]
    have hback : (Extract.plan p.offset k).bits (pack fields maskUnsigned value g) =
        k.narrow (value p) := by
      apply eq_of_bit
      intro i hi
      rw [Extract.bit_bits_plan halign _ hi, k.bit_narrow _ hi]
      by_cases hlow : i < 8 * k.size.toNat
      · rw [if_pos hlow, if_pos hlow, hown i hlow]
      · rw [if_neg hlow, if_neg hlow, Nat.add_sub_assoc (by omega), hown _ (by omega)]
    exact ⟨k, hk, hback, fun hwhole => hback.trans (ScalarKind.narrow_whole hwhole _)⟩
  gaps i hi hout := by
    rw [Bool.eq_false_iff]
    intro hbit
    obtain ⟨p, hp, hin, -⟩ := (bit_pack_iff hs ha hg hr hi).mp hbit
    exact hout p hp hin

end packing

theorem inRange_of_lt {k : ScalarKind} {maskUnsigned : Bool} {value : UInt32}
    (h : maskUnsigned = false → k = .u8 ∨ k = .u16 → value.toNat < 2 ^ (8 * k.size.toNat)) :
    Insert.InRange k maskUnsigned value := by
  cases maskUnsigned with
  | true => exact .inr (.inl rfl)
  | false =>
    have hclear : value.toNat < 2 ^ (8 * k.size.toNat) → Insert.InRange k false value := by
      intro hlt
      refine .inr (.inr fun i hi => ?_)
      apply Nat.testBit_lt_two_pow
      exact hlt.trans_le (Nat.pow_le_pow_right Nat.two_pos hi)
    cases k with
    | u8 => exact hclear (h rfl (.inl rfl))
    | u16 => exact hclear (h rfl (.inr rfl))
    | i8 | i16 | i32 => exact .inl rfl
    | f32 | u32 | unknown _ => exact hclear value.toNat_lt

/-- Whatever the values of the scalars of one word are, packing them masked keeps each in its own
place. Without masking the unsigned ones must be in range. -/
theorem accepted_pack_isolates {m : Module} (hv : m.validate = []) (hx : m.ExactFields)
    {d : TypeDef} (hd : d ∈ m.defs) {fields : List Field} (hb : d.body = .struct fields)
    {g : Group} (hg : g ∈ resolve fields d.size .write) (maskUnsigned : Bool)
    (value : Piece → UInt32)
    (hr : maskUnsigned = false → ∀ p ∈ g.raw.pieces, ∀ k, p.kind? fields = some k →
      k = .u8 ∨ k = .u16 → (value p).toNat < 2 ^ (8 * k.size.toNat)) :
    Packed fields value g (pack fields maskUnsigned value g) := by
  obtain ⟨⟨h, hs⟩, ha⟩ := Validation.structSound_of_mem hv hx hd hb
  apply packed_pack hs ha hg
  intro p hp k hk
  exact inRange_of_lt fun hmask => hr hmask p hp k hk

def crowdedFields : List Field :=
  [⟨"top", 2, .scalar .i16, 2⟩, ⟨"low", 0, .scalar .u8, 1⟩, ⟨"mid", 1, .scalar .i8, 1⟩,
    ⟨"next", 4, .ref 0, 4⟩]

def crowdedModule : Module :=
  { name := "crowded", writable := true
    defs := [{ name := "Crowd", size := 8, body := .struct crowdedFields }] }

def crowdedGroup : Group :=
  ⟨0, [⟨.scalar, 0, none, 2, 2⟩, ⟨.scalar, 1, none, 0, 1⟩, ⟨.scalar, 2, none, 1, 1⟩]⟩

def crowdedValue (low : UInt32) (p : Piece) : UInt32 :=
  match p.field with
  | 0 => 0x12348001
  | 1 => low
  | _ => 0x7FFFFF80

theorem accepted_pack_isolates_crowded :
    Packed crowdedFields (crowdedValue 0xABCDEF12) crowdedGroup 0x80018012 ∧
      Packed crowdedFields (crowdedValue 0x12) crowdedGroup 0x80018012 := by
  have hv : crowdedModule.validate = [] := by cbv
  have hx : crowdedModule.ExactFields := by decide
  have hd : { name := "Crowd", size := 8, body := .struct crowdedFields } ∈ crowdedModule.defs :=
    List.mem_singleton_self _
  have hg : crowdedGroup ∈ resolve crowdedFields 8 .write := by cbv; exact .head _
  have hmasked := accepted_pack_isolates hv hx hd rfl hg true (crowdedValue 0xABCDEF12)
    fun hmask => absurd hmask (by decide)
  have hplain := accepted_pack_isolates hv hx hd rfl hg false (crowdedValue 0x12)
    fun _ => by decide
  exact ⟨hmasked, hplain⟩

end Coverage

end WordLayout
