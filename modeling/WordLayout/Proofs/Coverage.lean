import Mathlib
import WordLayout.Coverage
import WordLayout.Proofs.BitPlan
import WordLayout.Proofs.Validation.WellFormed

namespace WordLayout

open Word

def Field.words (f : Field) : Finset Nat := Finset.Ico (f.offset.toNat / 4) (f.stop / 4)

def Ty.leaf? : Ty → Option (ScalarKind × Nat)
  | .scalar k => some (k, 1)
  | .vector k lanes => some (k, lanes.toNat)
  | .ref _ => some (.u32, 1)
  | .inline _ | .missing => none

namespace Coverage

section groups

theorem slots_size (ps : List Piece) (n : Nat) :
    (ps.foldr (fun p slots => slots.modify p.word.toNat (p :: ·))
      (Array.replicate n ([] : List Piece))).size = n := by
  induction ps with
  | nil => simp
  | cons p ps ih => simp [ih]

theorem slots_getElem? (ps : List Piece) {n i : Nat} (hi : i < n) :
    (ps.foldr (fun p slots => slots.modify p.word.toNat (p :: ·))
      (Array.replicate n ([] : List Piece)))[i]? =
      some (ps.filter fun p => p.word.toNat == i) := by
  induction ps with
  | nil => simp [hi]
  | cons p ps ih =>
    rw [List.foldr_cons, Array.getElem?_modify, ih]
    by_cases hp : p.word.toNat = i <;> simp [hp]

theorem resolve_eq (fields : List Field) (size : UInt32) (mode : Mode) :
    resolve fields size mode =
      (List.range (wordCount size (pieces mode fields))).map fun i =>
        ⟨UInt32.ofNat i, (pieces mode fields).filter fun p => p.word.toNat == i⟩ := by
  apply List.ext_getElem
  · simp [resolve, slots_size]
  · intro i h1 h2
    have hi : i < wordCount size (pieces mode fields) := by simpa using h2
    have hs := slots_getElem? (pieces mode fields) hi
    rw [Array.getElem?_eq_getElem (by simpa [slots_size] using hi)] at hs
    simp only [resolve, List.getElem_map, List.getElem_zipIdx, Array.getElem_toList,
      Option.some.inj hs, List.getElem_range, Nat.zero_add]

theorem le_foldl_max (ps : List Piece) (n : Nat) :
    n ≤ ps.foldl (fun n p => max n (p.word.toNat + 1)) n := by
  induction ps generalizing n with
  | nil => exact le_rfl
  | cons p ps ih => exact (le_max_left _ _).trans (ih _)

theorem wordCount_le (size : UInt32) (ps : List Piece) : wordCount size ps ≤ 2 ^ 30 := by
  have hstart : ((size + 3) / 4).toNat ≤ 2 ^ 30 := by
    have hlt := (size + 3).toNat_lt
    rw [toNat_div_four]
    omega
  unfold wordCount
  generalize ((size + 3) / 4).toNat = n at hstart
  induction ps generalizing n with
  | nil => exact hstart
  | cons p ps ih =>
    apply ih
    have hlt := p.offset.toNat_lt
    have hword : p.word.toNat = p.offset.toNat / 4 := toNat_div_four p.offset
    exact max_le hstart (by omega)

theorem word_lt_wordCount {size : UInt32} {ps : List Piece} {p : Piece} (hp : p ∈ ps) :
    p.word.toNat < wordCount size ps := by
  unfold wordCount
  generalize ((size + 3) / 4).toNat = n
  induction ps generalizing n with
  | nil => cases hp
  | cons q ps ih =>
    rcases List.mem_cons.mp hp with rfl | hp
    · exact (le_max_right n (p.word.toNat + 1)).trans (le_foldl_max ps _)
    · exact ih hp _

theorem resolve_word_ne (fields : List Field) (size : UInt32) (mode : Mode) :
    (resolve fields size mode).Pairwise fun g g' => g.word ≠ g'.word := by
  rw [resolve_eq, List.pairwise_map]
  refine List.nodup_range.imp_of_mem fun {i j} hi hj hne heq => hne ?_
  have hle := wordCount_le size (pieces mode fields)
  rw [List.mem_range] at hi hj
  have hnat := congrArg UInt32.toNat heq
  rwa [UInt32.toNat_ofNat_of_lt' (by change _ < 2 ^ 32; omega),
    UInt32.toNat_ofNat_of_lt' (by change _ < 2 ^ 32; omega)] at hnat

theorem exists_group_of_mem {fields : List Field} (size : UInt32) {mode : Mode} {p : Piece}
    (hp : p ∈ pieces mode fields) :
    ∃ g, (resolve fields size mode)[p.word.toNat]? = some g ∧ g.word = p.word ∧ p ∈ g.pieces := by
  rw [resolve_eq, List.getElem?_map, List.getElem?_range (word_lt_wordCount hp)]
  exact ⟨_, rfl, UInt32.ofNat_toNat, by simp [hp]⟩

theorem of_mem_group {fields : List Field} {size : UInt32} {mode : Mode} {g : Group}
    (hg : g ∈ resolve fields size mode) {p : Piece} (hp : p ∈ g.pieces) :
    p ∈ pieces mode fields ∧ g.word = p.word := by
  rw [resolve_eq] at hg
  obtain ⟨i, -, rfl⟩ := List.mem_map.mp hg
  simp only [List.mem_filter, beq_iff_eq] at hp
  exact ⟨hp.1, by rw [← hp.2, UInt32.ofNat_toNat]⟩

theorem mem_group_of_word_eq {fields : List Field} {size : UInt32} {mode : Mode} {g : Group}
    (hg : g ∈ resolve fields size mode) {p : Piece} (hp : p ∈ pieces mode fields)
    (hw : p.word.toNat = g.word.toNat) : p ∈ g.pieces := by
  have hle := wordCount_le size (pieces mode fields)
  rw [resolve_eq] at hg
  obtain ⟨i, hi, rfl⟩ := List.mem_map.mp hg
  rw [List.mem_range] at hi
  rw [UInt32.toNat_ofNat_of_lt' (by change _ < 2 ^ 32; omega)] at hw
  simp [hp, hw]

theorem mem_pieces_iff {mode : Mode} {fields : List Field} {p : Piece} :
    p ∈ pieces mode fields ↔ ∃ i f, fields[i]? = some f ∧ p ∈ piecesOf mode i f := by
  simp only [pieces, List.mem_flatMap, Prod.exists, List.mem_zipIdx_iff_getElem?]
  constructor
  · rintro ⟨f, i, hf, hp⟩
    exact ⟨i, f, hf, hp⟩
  · rintro ⟨i, f, hf, hp⟩
    exact ⟨f, i, hf, hp⟩

end groups

section spans

theorem span_eq_singleton {offset size : UInt32} (hpos : 0 < size.toNat)
    (hfit : offset.toNat % 4 + size.toNat ≤ 4) (hlast : offset.toNat + size.toNat ≤ 2 ^ 32 - 4) :
    span offset size = [(offset, size)] := by
  have hstop : (offset + size).toNat = offset.toNat + size.toNat := toNat_add_of_lt (by omega)
  have hend : ((offset / 4 + 1) * 4).toNat = (offset.toNat / 4 + 1) * 4 := by
    simp only [UInt32.toNat_mul, UInt32.toNat_add, UInt32.toNat_div, UInt32.reduceToNat]
    omega
  have hcut : cut offset (offset + size) = offset + size := by
    unfold cut
    split
    · rfl
    · rename_i h
      rw [UInt32.lt_iff_toNat_lt, hend, hstop] at h
      rw [← UInt32.toNat_inj, hend, hstop]
      omega
  have hlt : offset < offset + size := by
    rw [UInt32.lt_iff_toNat_lt, hstop]
    omega
  have hdone : spanTo (offset + size) (offset + size) = [] := by
    rw [spanTo, if_neg (UInt32.lt_irrefl _)]
  rw [span, spanTo, if_pos hlt, hcut, if_pos hlt, hdone, add_sub_cancel_left]

end spans

end Coverage

theorem sizeOf_leaf (m : Module) {ty : Ty} {k : ScalarKind} {n : Nat}
    (hl : ty.leaf? = some (k, n)) : (m.sizeOf ty).toNat = n * k.size.toNat := by
  cases ty with
  | scalar k' =>
    simp only [Ty.leaf?, Option.some.injEq, Prod.mk.injEq] at hl
    obtain ⟨rfl, rfl⟩ := hl
    rw [Module.sizeOf, Nat.one_mul]
  | vector k' lanes =>
    simp only [Ty.leaf?, Option.some.injEq, Prod.mk.injEq] at hl
    obtain ⟨rfl, rfl⟩ := hl
    have hprod : k'.size.toNat * lanes.toNat ≤ 4 * 256 :=
      Nat.mul_le_mul k'.size_le_four lanes.toNat_lt.le
    rw [Module.sizeOf, UInt32.toNat_mul, UInt8.toNat_toUInt32, Nat.mod_eq_of_lt (by omega),
      Nat.mul_comm]
  | ref t =>
    simp only [Ty.leaf?, Option.some.injEq, Prod.mk.injEq] at hl
    obtain ⟨rfl, rfl⟩ := hl
    rfl
  | inline t => simp [Ty.leaf?] at hl
  | missing => simp [Ty.leaf?] at hl

namespace Field.Placed

variable {m : Module} {size : UInt32} {f : Field} {k : ScalarKind} {n : Nat}

theorem size_toNat (hp : f.Placed m size) (hl : f.ty.leaf? = some (k, n)) :
    f.size.toNat = n * k.size.toNat := by
  rw [hp.size_eq, sizeOf_leaf m hl]

theorem lanes_pos (hp : f.Placed m size) (hl : f.ty.leaf? = some (k, n)) : 0 < n := by
  have hk := hp.known
  cases ht : f.ty with
  | vector k' lanes =>
    simp only [ht, Ty.leaf?, Option.some.injEq, Prod.mk.injEq] at hl
    rw [ht] at hk
    rw [← hl.2]
    exact hk.2.1
  | scalar _ | ref _ =>
    simp only [ht, Ty.leaf?, Option.some.injEq, Prod.mk.injEq] at hl
    omega
  | inline t => simp [ht, Ty.leaf?] at hl
  | missing => simp [ht, Ty.leaf?] at hl

theorem size_pos (hp : f.Placed m size) (hl : f.ty.leaf? = some (k, n)) : 0 < f.size.toNat := by
  rw [hp.size_toNat hl]
  exact Nat.mul_pos (hp.lanes_pos hl) k.size_pos

theorem offset_aligned (hp : f.Placed m size) (hl : f.ty.leaf? = some (k, n)) :
    f.offset.toNat % k.size.toNat = 0 := by
  have ha := hp.aligned
  cases ht : f.ty with
  | scalar _ | vector _ _ | ref _ =>
    simp only [ht, Ty.leaf?, Option.some.injEq, Prod.mk.injEq] at hl
    rw [ht] at ha
    rw [← hl.1]
    exact ha
  | inline t => simp [ht, Ty.leaf?] at hl
  | missing => simp [ht, Ty.leaf?] at hl

theorem laneOffset_toNat (hp : f.Placed m size) (hl : f.ty.leaf? = some (k, n)) {lane : Nat}
    (hn : lane < n) :
    (f.offset + UInt32.ofNat lane * k.size).toNat = f.offset.toNat + lane * k.size.toNat := by
  have hstop := hp.stop_le
  have hsize := hp.size_toNat hl
  have hlt := size.toNat_lt
  have hpos := k.size_pos
  have hlane : (lane + 1) * k.size.toNat ≤ n * k.size.toNat := Nat.mul_le_mul_right _ hn
  have hle : lane ≤ lane * k.size.toNat := Nat.le_mul_of_pos_right _ hpos
  rw [Nat.add_mul, Nat.one_mul] at hlane
  simp only [Field.stop] at hstop
  rw [UInt32.toNat_add, UInt32.toNat_mul, UInt32.toNat_ofNat_of_lt' (by change _ < 2 ^ 32; omega),
    Nat.mod_eq_of_lt (b := 2 ^ 32) (by omega), Nat.mod_eq_of_lt (by omega)]

theorem laneOffset_aligned (hp : f.Placed m size) (hl : f.ty.leaf? = some (k, n)) (lane : Nat) :
    (f.offset.toNat + lane * k.size.toNat) % k.size.toNat = 0 := by
  rw [Nat.add_mul_mod_self_right]
  exact hp.offset_aligned hl

theorem lane_stop_le (hp : f.Placed m size) (hl : f.ty.leaf? = some (k, n)) {lane : Nat}
    (hn : lane < n) : f.offset.toNat + lane * k.size.toNat + k.size.toNat ≤ f.stop := by
  have hsize := hp.size_toNat hl
  have hlane : (lane + 1) * k.size.toNat ≤ n * k.size.toNat := Nat.mul_le_mul_right _ hn
  rw [Nat.add_mul, Nat.one_mul] at hlane
  simp only [Field.stop]
  omega

end Field.Placed

namespace Coverage

def leafPiece (i : Nat) (f : Field) (k : ScalarKind) (lane : Nat) : Piece :=
  { kind := match f.ty with
      | .vector .. => .lane
      | .ref _ => .ref
      | _ => .scalar
    field := i
    lane := match f.ty with
      | .vector .. => some lane
      | _ => none
    offset := f.offset + UInt32.ofNat lane * k.size
    size := k.size }

theorem leafPiece_isRaw (i : Nat) (f : Field) (k : ScalarKind) (lane : Nat) :
    (leafPiece i f k lane).isRaw = true := by
  cases hf : f.ty <;> simp [leafPiece, Piece.isRaw, hf]

theorem leafPiece_inj {m : Module} {size : UInt32} {f : Field} {k : ScalarKind} {n : Nat}
    (hp : f.Placed m size) (hl : f.ty.leaf? = some (k, n)) {i lane lane' : Nat} (hlane : lane < n)
    (hlane' : lane' < n) (h : leafPiece i f k lane = leafPiece i f k lane') : lane = lane' := by
  have hoff := congrArg (fun p : Piece => p.offset.toNat) h
  simp only [leafPiece, hp.laneOffset_toNat hl hlane, hp.laneOffset_toNat hl hlane',
    Nat.add_left_cancel_iff] at hoff
  exact Nat.eq_of_mul_eq_mul_right k.size_pos hoff

theorem piecesOf_leaf {m : Module} {size : UInt32} {f : Field} {k : ScalarKind} {n : Nat}
    (hp : f.Placed m size) (hs : size.toNat % 4 = 0) (hl : f.ty.leaf? = some (k, n)) (mode : Mode)
    (i : Nat) : piecesOf mode i f = (List.range n).map (leafPiece i f k) := by
  have hspan : ∀ lane < n, span (f.offset + UInt32.ofNat lane * k.size) k.size =
      [(f.offset + UInt32.ofNat lane * k.size, k.size)] := by
    intro lane hn
    have hoff := hp.laneOffset_toNat hl hn
    have hfit := k.fits_word (hp.laneOffset_aligned hl lane)
    have hstop := hp.lane_stop_le hl hn
    have hle := hp.stop_le
    have hlt := size.toNat_lt
    apply span_eq_singleton k.size_pos
    · rwa [hoff]
    · rw [hoff]
      omega
  cases ht : f.ty with
  | scalar k' =>
    have hfs := hp.size_eq
    simp only [ht, Ty.leaf?, Option.some.injEq, Prod.mk.injEq] at hl
    obtain ⟨rfl, rfl⟩ := hl
    rw [ht, Module.sizeOf] at hfs
    have h0 := hspan 0 Nat.one_pos
    rw [lane_zero] at h0
    simp [piecesOf, ht, hfs, h0, leafPiece]
  | vector k' lanes =>
    simp only [ht, Ty.leaf?, Option.some.injEq, Prod.mk.injEq] at hl
    obtain ⟨rfl, rfl⟩ := hl
    simp only [piecesOf, ht, List.map_eq_flatMap]
    apply List.flatMap_congr
    intro lane hlane
    rw [hspan lane (List.mem_range.mp hlane)]
    simp [leafPiece, ht]
  | ref t =>
    simp only [ht, Ty.leaf?, Option.some.injEq, Prod.mk.injEq] at hl
    obtain ⟨rfl, rfl⟩ := hl
    have h0 := hspan 0 Nat.one_pos
    rw [lane_zero] at h0
    simp only [ScalarKind.size] at h0
    simp [piecesOf, ht, h0, leafPiece, ScalarKind.size]
  | inline t => simp [ht, Ty.leaf?] at hl
  | missing => simp [ht, Ty.leaf?] at hl

def nestedPiece (i : Nat) (f : Field) : Piece := ⟨.nested, i, none, f.offset, f.size⟩

def ScalarPiece (fields : List Field) (p : Piece) : Prop :=
  ∃ (i : Nat) (f : Field) (k : ScalarKind) (n lane : Nat), fields[i]? = some f ∧
    f.ty.leaf? = some (k, n) ∧ lane < n ∧ p = leafPiece i f k lane

section sound

variable {m : Module} {h : Handle} {size : UInt32} {fields : List Field}

theorem leaf_or_inline {f : Field} (hp : f.Placed m size) :
    (∃ k n, f.ty.leaf? = some (k, n)) ∨ ∃ t, f.ty = .inline t := by
  have hk := hp.known
  cases ht : f.ty with
  | scalar _ | vector _ _ | ref _ => exact .inl ⟨_, _, rfl⟩
  | inline t => exact .inr ⟨t, rfl⟩
  | missing =>
    rw [ht] at hk
    cases hk

theorem mem_pieces_write_iff (hs : StructSound m h size fields) (ha : size.toNat % 4 = 0)
    {p : Piece} :
    p ∈ pieces .write fields ↔
      ∃ i f, fields[i]? = some f ∧
        ((∃ k n lane, f.ty.leaf? = some (k, n) ∧ lane < n ∧ p = leafPiece i f k lane) ∨
          ∃ t, f.ty = .inline t ∧ p = nestedPiece i f) := by
  rw [mem_pieces_iff]
  apply exists_congr
  intro i
  apply exists_congr
  intro f
  apply and_congr_right
  intro hf
  have hp := hs.placed f (List.mem_of_getElem? hf)
  rcases leaf_or_inline hp with ⟨k, n, hl⟩ | ⟨t, ht⟩
  · rw [piecesOf_leaf hp ha hl, List.mem_map]
    constructor
    · rintro ⟨lane, hlane, rfl⟩
      exact .inl ⟨k, n, lane, hl, List.mem_range.mp hlane, rfl⟩
    · rintro (⟨k', n', lane, hl', hlane, rfl⟩ | ⟨t, ht, -⟩)
      · rw [hl, Option.some.injEq, Prod.mk.injEq] at hl'
        obtain ⟨rfl, rfl⟩ := hl'
        exact ⟨lane, List.mem_range.mpr hlane, rfl⟩
      · simp [ht, Ty.leaf?] at hl
  · simp [piecesOf, ht, Ty.leaf?, nestedPiece]

theorem mem_pieces_raw_iff (hs : StructSound m h size fields) (ha : size.toNat % 4 = 0)
    (mode : Mode) {p : Piece} :
    p ∈ pieces mode fields ∧ p.isRaw = true ↔ ScalarPiece fields p := by
  rw [mem_pieces_iff]
  constructor
  · rintro ⟨⟨i, f, hf, hp⟩, hraw⟩
    have hpl := hs.placed f (List.mem_of_getElem? hf)
    rcases leaf_or_inline hpl with ⟨k, n, hl⟩ | ⟨t, ht⟩
    · rw [piecesOf_leaf hpl ha hl, List.mem_map] at hp
      obtain ⟨lane, hlane, rfl⟩ := hp
      exact ⟨i, f, k, n, lane, hf, hl, List.mem_range.mp hlane, rfl⟩
    · cases mode with
      | write =>
        simp only [piecesOf, ht, List.mem_singleton] at hp
        simp [hp, Piece.isRaw] at hraw
      | read =>
        simp only [piecesOf, ht, List.mem_map] at hp
        obtain ⟨part, -, rfl⟩ := hp
        simp [Piece.isRaw] at hraw
  · rintro ⟨i, f, k, n, lane, hf, hl, hlane, rfl⟩
    have hpl := hs.placed f (List.mem_of_getElem? hf)
    refine ⟨⟨i, f, hf, ?_⟩, leafPiece_isRaw i f k lane⟩
    rw [piecesOf_leaf hpl ha hl]
    exact List.mem_map_of_mem (List.mem_range.mpr hlane)

theorem word_lt_of_needsRaw (hs : StructSound m h size fields) (ha : size.toNat % 4 = 0)
    {mode : Mode} {g : Group} (hg : g ∈ resolve fields size mode) (hraw : g.needsRaw = true) :
    g.word.toNat < size.toNat / 4 := by
  obtain ⟨p, hp, hr⟩ := List.any_eq_true.mp hraw
  obtain ⟨hmem, hw⟩ := of_mem_group hg hp
  obtain ⟨i, f, k, n, lane, hf, hl, hlane, rfl⟩ := (mem_pieces_raw_iff hs ha mode).mp ⟨hmem, hr⟩
  have hpl := hs.placed f (List.mem_of_getElem? hf)
  have hoff := hpl.laneOffset_toNat hl hlane
  have hstop := hpl.lane_stop_le hl hlane
  have hle := hpl.stop_le
  have hpos := k.size_pos
  rw [hw, Piece.word, toNat_div_four]
  simp only [leafPiece]
  omega

theorem exists_needsRaw_of_leaf (hs : StructSound m h size fields) (ha : size.toNat % 4 = 0)
    (mode : Mode) {i : Nat} {f : Field} {k : ScalarKind} {n lane : Nat}
    (hf : fields[i]? = some f) (hl : f.ty.leaf? = some (k, n)) (hlane : lane < n) :
    ∃ g, (resolve fields size mode)[(f.offset.toNat + lane * k.size.toNat) / 4]? = some g ∧
      g.needsRaw = true ∧ g.word.toNat = (f.offset.toNat + lane * k.size.toNat) / 4 := by
  have hpl := hs.placed f (List.mem_of_getElem? hf)
  obtain ⟨hmem, hr⟩ :=
    (mem_pieces_raw_iff hs ha mode).mpr ⟨i, f, k, n, lane, hf, hl, hlane, rfl⟩
  have hword : (leafPiece i f k lane).word.toNat =
      (f.offset.toNat + lane * k.size.toNat) / 4 := by
    rw [Piece.word, toNat_div_four, leafPiece, hpl.laneOffset_toNat hl hlane]
  obtain ⟨g, hg, hw, hp⟩ := exists_group_of_mem size hmem
  rw [← hword]
  exact ⟨g, hg, List.any_eq_true.mpr ⟨_, hp, hr⟩, congrArg UInt32.toNat hw⟩

end sound

end Coverage

namespace Module.StructsSound

variable {m : Module} (hm : m.StructsSound) {h : Handle} {d : TypeDef} {fields : List Field}
include hm

theorem size_pos (hd : m.def? h = some d) (hb : d.body = .struct fields) : 0 < d.size.toNat := by
  induction hn : h.toNat using Nat.strong_induction_on generalizing h d fields with
  | _ n ih =>
    have hs := hm.struct hd hb
    obtain ⟨f, hf⟩ := List.exists_mem_of_ne_nil fields hs.nonempty
    have hp := hs.placed f hf
    have hstop := hp.stop_le
    have hpos : 0 < f.size.toNat := by
      rcases Coverage.leaf_or_inline hp with ⟨k, n, hl⟩ | ⟨t, ht⟩
      · exact hp.size_pos hl
      · obtain ⟨e, inner, he, hbe, hsize, hlt, -⟩ := hm.inline_target hd hb hf ht
        rw [hsize]
        exact ih t.toNat (hn ▸ UInt32.lt_iff_toNat_lt.mp hlt) he hbe rfl
    simp only [Field.stop] at hstop
    omega

theorem field_pos {size : UInt32} (hs : StructSound m h size fields) {f : Field}
    (hf : f ∈ fields) : 0 < f.size.toNat := by
  have hp := hs.placed f hf
  rcases Coverage.leaf_or_inline hp with ⟨k, n, hl⟩ | ⟨t, ht⟩
  · exact hp.size_pos hl
  · have hknown := hp.known
    have hsize := hp.size_eq
    rw [ht] at hknown hsize
    obtain ⟨e, inner, he, hbe, hse⟩ := hm.struct_of_known hknown
    rw [hsize, hse]
    exact hm.size_pos he hbe

theorem field_offset_toNat (hd : m.def? h = some d) (hb : d.body = .struct fields) {f : Field}
    (hf : f ∈ fields) {offset : UInt32} (hend : offset.toNat + d.size.toNat ≤ 2 ^ 32) :
    (offset + f.offset).toNat = offset.toNat + f.offset.toNat := by
  have hs := hm.struct hd hb
  have hstop := (hs.placed f hf).stop_le
  have hpos := hm.field_pos hs hf
  simp only [Field.stop] at hstop
  exact toNat_add_of_lt (by omega)

end Module.StructsSound

theorem StructSound.apart_of_ne {m : Module} {h : Handle} {size : UInt32} {fields : List Field}
    (hs : StructSound m h size fields) {i j : Nat} {f g : Field} (hf : fields[i]? = some f)
    (hg : fields[j]? = some g) (hij : i ≠ j) : f.Apart g := by
  obtain ⟨hi, rfl⟩ := List.getElem?_eq_some_iff.mp hf
  obtain ⟨hj, rfl⟩ := List.getElem?_eq_some_iff.mp hg
  have hap := List.pairwise_iff_getElem.mp hs.apart
  rcases Nat.lt_or_gt_of_ne hij with hlt | hlt
  · exact hap i j hi hj hlt
  · exact (hap j i hj hi hlt).symm

namespace Coverage

theorem field_of_mem_piecesOf {mode : Mode} {i : Nat} {f : Field} {p : Piece}
    (hp : p ∈ piecesOf mode i f) : p.field = i := by
  unfold piecesOf at hp
  split at hp
  · obtain ⟨_, -, rfl⟩ := List.mem_map.mp hp
    rfl
  · obtain ⟨_, -, hp⟩ := List.mem_flatMap.mp hp
    obtain ⟨_, -, rfl⟩ := List.mem_map.mp hp
    rfl
  · obtain ⟨_, -, rfl⟩ := List.mem_map.mp hp
    rfl
  · split at hp
    · obtain rfl := List.mem_singleton.mp hp
      rfl
    · obtain ⟨_, -, rfl⟩ := List.mem_map.mp hp
      rfl
  · cases hp

theorem mem_piecesOf_of_field {mode : Mode} {fields : List Field} {f : Field} {p : Piece}
    (hp : p ∈ pieces mode fields) (hf : fields[p.field]? = some f) :
    p ∈ piecesOf mode p.field f := by
  obtain ⟨i, g, hg, hpg⟩ := mem_pieces_iff.mp hp
  obtain rfl := field_of_mem_piecesOf hpg
  obtain rfl := Option.some.inj (hf.symm.trans hg)
  exact hpg

theorem mem_spanTo_inside {start stop o n : UInt32} (h : (o, n) ∈ spanTo start stop) :
    start.toNat ≤ o.toNat ∧ o.toNat < stop.toNat := by
  fun_induction spanTo start stop with
  | case1 start hlt hcut ih =>
    rw [UInt32.lt_iff_toNat_lt] at hlt hcut
    rcases List.mem_cons.mp h with heq | h
    · obtain ⟨rfl, -⟩ := Prod.mk.inj heq
      exact ⟨le_rfl, hlt⟩
    · have hrest := ih h
      omega
  | case2 start hlt hcut =>
    obtain ⟨rfl, -⟩ := Prod.mk.inj (List.mem_singleton.mp h)
    exact ⟨le_rfl, UInt32.lt_iff_toNat_lt.mp hlt⟩
  | case3 start hlt => cases h

section inside

variable {m : Module} (hm : m.StructsSound) {h : Handle} {size : UInt32} {fields : List Field}
  (hs : StructSound m h size fields) (ha : size.toNat % 4 = 0) {mode : Mode} {i : Nat} {f : Field}
include hm hs

theorem inline_words (hf : f ∈ fields) {t : Handle} (ht : f.ty = .inline t) :
    f.offset.toNat % 4 = 0 ∧ f.size.toNat % 4 = 0 ∧ 0 < f.size.toNat := by
  have hp := hs.placed f hf
  have hknown := hp.known
  have hsize := hp.size_eq
  have halign := hp.aligned
  rw [ht] at hknown hsize halign
  obtain ⟨e, inner, he, -, hse⟩ := hm.struct_of_known hknown
  refine ⟨halign, ?_, hm.field_pos hs hf⟩
  rw [hsize, hse]
  exact hm.aligned t e he

include ha

theorem start_inside (hf : f ∈ fields) {p : Piece} (hp : p ∈ piecesOf mode i f) :
    f.offset.toNat ≤ p.offset.toNat ∧ p.offset.toNat < f.stop := by
  have hpl := hs.placed f hf
  rcases leaf_or_inline hpl with ⟨k, n, hl⟩ | ⟨t, ht⟩
  · rw [piecesOf_leaf hpl ha hl, List.mem_map] at hp
    obtain ⟨lane, hlane, rfl⟩ := hp
    rw [List.mem_range] at hlane
    have hoff := hpl.laneOffset_toNat hl hlane
    have hstop := hpl.lane_stop_le hl hlane
    have hpos := k.size_pos
    simp only [leafPiece, hoff]
    omega
  · cases mode with
    | read =>
      simp only [piecesOf, ht, List.mem_map] at hp
      obtain ⟨⟨o, n⟩, hpart, rfl⟩ := hp
      have hend : (f.offset + f.size).toNat = f.stop :=
        toNat_add_of_lt (hpl.stop_le.trans_lt size.toNat_lt)
      rw [← hend]
      exact mem_spanTo_inside hpart
    | write =>
      obtain ⟨-, -, hpos⟩ := inline_words hm hs hf ht
      simp only [piecesOf, ht, List.mem_singleton] at hp
      subst hp
      exact ⟨le_rfl, Nat.lt_add_of_pos_right hpos⟩

theorem word_mem (hf : f ∈ fields) {t : Handle} (ht : f.ty = .inline t) {p : Piece}
    (hp : p ∈ piecesOf mode i f) : p.word.toNat ∈ f.words := by
  obtain ⟨halign, hmod, hpos⟩ := inline_words hm hs hf ht
  obtain ⟨hlo, hhi⟩ := start_inside hm hs ha hf hp
  rw [Piece.word, toNat_div_four, Field.words, Finset.mem_Ico]
  simp only [Field.stop] at hhi ⊢
  omega

theorem word_notMem (hf : fields[i]? = some f) {t : Handle} (ht : f.ty = .inline t) {p : Piece}
    (hp : p ∈ pieces mode fields) (hne : p.field ≠ i) : p.word.toNat ∉ f.words := by
  obtain ⟨j, g, hg, hpg⟩ := mem_pieces_iff.mp hp
  obtain rfl := field_of_mem_piecesOf hpg
  obtain ⟨halign, hmod, hpos⟩ := inline_words hm hs (List.mem_of_getElem? hf) ht
  obtain ⟨hlo, hhi⟩ := start_inside hm hs ha (List.mem_of_getElem? hg) hpg
  have hap := hs.apart_of_ne hg hf hne
  rw [Piece.word, toNat_div_four, Field.words, Finset.mem_Ico]
  simp only [Field.Apart, Field.stop] at hap hhi ⊢
  omega

end inside

section writing

variable {m : Module} (hm : m.StructsSound) {h : Handle} {d : TypeDef} {fields : List Field}
  (hd : m.def? h = some d) (hb : d.body = .struct fields)
include hm hd hb

theorem pieces_write_nodup : (pieces .write fields).Nodup := by
  have hs := hm.struct hd hb
  have ha := hm.aligned h d hd
  rw [pieces, List.nodup_flatMap]
  constructor
  · rintro ⟨f, i⟩ hfi
    have hf := List.mem_zipIdx_iff_getElem?.mp hfi
    have hp := hs.placed f (List.mem_of_getElem? hf)
    rcases leaf_or_inline hp with ⟨k, n, hl⟩ | ⟨t, ht⟩
    · simp only [piecesOf_leaf hp ha hl]
      apply List.nodup_range.map_on
      intro lane hlane lane' hlane' heq
      exact leafPiece_inj hp hl (List.mem_range.mp hlane) (List.mem_range.mp hlane') heq
    · simp [piecesOf, ht]
  · have hidx := List.pairwise_map.mp (List.nodup_zipIdx_map_snd fields)
    refine hidx.imp fun {x y} hne => ?_
    rintro p hpx hpy
    exact hne ((field_of_mem_piecesOf hpx).symm.trans (field_of_mem_piecesOf hpy))

omit hm hd hb in
theorem eq_nestedPiece_of_field (hs : StructSound m h d.size fields) (ha : d.size.toNat % 4 = 0)
    {p : Piece} (hp : p ∈ pieces .write fields) {f : Field} {t : Handle}
    (hf : fields[p.field]? = some f) (ht : f.ty = .inline t) : p = nestedPiece p.field f := by
  obtain ⟨j, f', hf', ⟨k, n, lane, hl, -, rfl⟩ | ⟨t', -, rfl⟩⟩ := (mem_pieces_write_iff hs ha).mp hp
  · obtain rfl := Option.some.inj (hf.symm.trans hf')
    simp [ht, Ty.leaf?] at hl
  · obtain rfl := Option.some.inj (hf.symm.trans hf')
    rfl

theorem eq_nestedPiece_of_word_eq {i : Nat} {f : Field} {t : Handle} (hf : fields[i]? = some f)
    (ht : f.ty = .inline t) {p : Piece} (hp : p ∈ pieces .write fields)
    (hw : p.word = (nestedPiece i f).word) : p = nestedPiece i f := by
  have hs := hm.struct hd hb
  have ha := hm.aligned h d hd
  have hin : nestedPiece i f ∈ piecesOf .write i f := by simp [piecesOf, ht, nestedPiece]
  have hwords := word_mem hm hs ha (List.mem_of_getElem? hf) ht hin
  have hsame : p.field = i := by
    by_contra hne
    apply word_notMem hm hs ha hf ht hp hne
    rwa [hw]
  subst hsame
  exact eq_nestedPiece_of_field hs ha hp hf ht

theorem write_group_cases {g : Group} (hg : g ∈ resolve fields d.size .write) :
    (g.needsRaw = true ∧ ∀ p ∈ g.pieces, ScalarPiece fields p) ∨
    (∃ i f t, fields[i]? = some f ∧ f.ty = .inline t ∧ g.pieces = [nestedPiece i f]) ∨
    g.pieces = [] := by
  have hs := hm.struct hd hb
  have ha := hm.aligned h d hd
  by_cases hnest : ∃ i f t, fields[i]? = some f ∧ f.ty = .inline t ∧ nestedPiece i f ∈ g.pieces
  · obtain ⟨i, f, t, hf, ht, hmem⟩ := hnest
    have hall : ∀ p ∈ g.pieces, p = nestedPiece i f := by
      intro p hp
      obtain ⟨hpp, hw⟩ := of_mem_group hg hp
      exact eq_nestedPiece_of_word_eq hm hd hb hf ht hpp (hw.symm.trans (of_mem_group hg hmem).2)
    have hnodup : g.pieces.Nodup := by
      rw [resolve_eq] at hg
      obtain ⟨w, -, rfl⟩ := List.mem_map.mp hg
      exact (pieces_write_nodup hm hd hb).filter _
    have hrep := List.eq_replicate_of_mem hall
    rw [hrep, List.nodup_replicate] at hnodup
    have hlen := List.length_pos_of_mem hmem
    rw [show g.pieces.length = 1 by omega] at hrep
    exact .inr (.inl ⟨i, f, t, hf, ht, hrep⟩)
  · have hleaf : ∀ p ∈ g.pieces, ScalarPiece fields p := by
      intro p hp
      obtain ⟨i, f, hf, ⟨k, n, lane, hl, hlane, rfl⟩ | ⟨t, ht, rfl⟩⟩ :=
        (mem_pieces_write_iff hs ha).mp (of_mem_group hg hp).1
      · exact ⟨i, f, k, n, lane, hf, hl, hlane, rfl⟩
      · exact absurd ⟨i, f, t, hf, ht, hp⟩ hnest
    rcases List.eq_nil_or_concat g.pieces with hnil | ⟨ps, p, hps⟩
    · exact .inr (.inr hnil)
    · refine .inl ⟨?_, hleaf⟩
      have hp : p ∈ g.pieces := by simp [hps]
      obtain ⟨i, f, k, n, lane, -, -, -, rfl⟩ := hleaf p hp
      exact List.any_eq_true.mpr ⟨_, hp, leafPiece_isRaw i f k lane⟩

end writing

end Coverage

end WordLayout
