import Mathlib
import WordLayout.Proofs.Coverage.Walk

namespace WordLayout

def Field.extent (f : Field) (lane : Option Nat) : Finset Nat :=
  match f.ty, lane with
  | .scalar _, none | .inline _, none =>
    Finset.Ico f.offset.toNat (f.offset.toNat + f.size.toNat)
  | .vector k lanes, some l =>
    if l < lanes.toNat then
      Finset.Ico (f.offset.toNat + l * k.size.toNat) (f.offset.toNat + (l + 1) * k.size.toNat)
    else ∅
  | .ref _, none => Finset.Ico f.offset.toNat (f.offset.toNat + 4)
  | _, _ => ∅

def Field.exactEnd (f : Field) : Nat :=
  match f.ty with
  | .scalar _ | .inline _ => f.offset.toNat + f.size.toNat
  | .vector k lanes => f.offset.toNat + lanes.toNat * k.size.toNat
  | .ref _ => f.offset.toNat + 4
  | .missing => 0

def Ty.pieceKind : Ty → PieceKind
  | .vector .. => .lane
  | .ref _ => .ref
  | .inline _ => .nested
  | .scalar _ | .missing => .scalar

namespace Piece

def bytes (p : Piece) : Finset Nat :=
  Finset.Ico p.offset.toNat (p.offset.toNat + p.size.toNat)

def Precedes (p q : Piece) : Prop :=
  p.field < q.field ∨ p.field = q.field ∧ ∃ a b, p.lane = some a ∧ q.lane = some b ∧ a < b

def Leads (p q : Piece) : Prop :=
  p.field = q.field ∧ p.lane = q.lane ∧ p.word.toNat < q.word.toNat ∧
    p.offset.toNat + p.size.toNat ≤ q.offset.toNat

end Piece

namespace Coverage

open Word

section parts

variable {start stop o n : UInt32}

theorem mem_spanTo_bounds (hstop : stop.toNat ≤ 2 ^ 32 - 4) (h : (o, n) ∈ spanTo start stop) :
    start.toNat ≤ o.toNat ∧ 0 < n.toNat ∧ o.toNat + n.toNat ≤ stop.toNat ∧
      o.toNat % 4 + n.toNat ≤ 4 := by
  have hstart := (mem_spanTo_inside h).1
  obtain ⟨next, -, hround, rfl⟩ := (mem_spanTo_iff hstop).mp h
  obtain ⟨hlt, hle, -⟩ := hround.bounds hstop
  obtain ⟨hpos, -, hword⟩ := hround.inWord hstop
  have hsub : (next - o).toNat = next.toNat - o.toNat :=
    UInt32.toNat_sub_of_le _ _ (UInt32.le_iff_toNat_le.mpr hlt.le)
  exact ⟨hstart, hpos, by omega, hword⟩

theorem spanTo_sorted (hstop : stop.toNat ≤ 2 ^ 32 - 4) (start : UInt32) :
    (spanTo start stop).Pairwise fun a b =>
      a.1.toNat / 4 < b.1.toNat / 4 ∧ a.1.toNat + a.2.toNat ≤ b.1.toNat := by
  fun_induction spanTo start stop with
  | case1 start hlt hcut ih =>
    refine List.pairwise_cons.mpr ⟨?_, ih⟩
    rintro ⟨o, n⟩ hmem
    obtain ⟨hle, hpos, hend, -⟩ := mem_spanTo_bounds hstop hmem
    rw [UInt32.lt_iff_toNat_lt] at hlt hcut
    have hnext : (cut start stop).toNat = min stop.toNat ((start.toNat / 4 + 1) * 4) :=
      cut_toNat (by omega)
    have hsub : (cut start stop - start).toNat = (cut start stop).toNat - start.toNat :=
      UInt32.toNat_sub_of_le _ _ (UInt32.le_iff_toNat_le.mpr hcut.le)
    constructor <;> simp only <;> omega
  | case2 start hlt hcut => exact List.pairwise_singleton _ _
  | case3 start hlt => exact List.Pairwise.nil

theorem exists_part (hstop : stop.toNat ≤ 2 ^ 32 - 4) {byte : Nat} (hge : start.toNat ≤ byte)
    (hlt : byte < stop.toNat) :
    ∃ part ∈ spanTo start stop,
      part.1.toNat ≤ byte ∧ byte < part.1.toNat + part.2.toNat := by
  fun_induction spanTo start stop with
  | case1 start hstart hcut ih =>
    rw [UInt32.lt_iff_toNat_lt] at hcut
    have hsub : (cut start stop - start).toNat = (cut start stop).toNat - start.toNat :=
      UInt32.toNat_sub_of_le _ _ (UInt32.le_iff_toNat_le.mpr hcut.le)
    by_cases hbyte : byte < (cut start stop).toNat
    · exact ⟨_, List.mem_cons_self, hge, by simp only; omega⟩
    · obtain ⟨part, hmem, hpart⟩ := ih (Nat.not_lt.mp hbyte)
      exact ⟨part, List.mem_cons_of_mem _ hmem, hpart⟩
  | case2 start hstart hcut =>
    have hbounds := (Round.next hstart).bounds hstop
    exact absurd (UInt32.lt_iff_toNat_lt.mpr hbounds.1) hcut
  | case3 start hstart =>
    rw [UInt32.lt_iff_toNat_lt] at hstart
    omega

end parts

section lanes

structure LaneRange where
  lane : Option Nat
  start : UInt32
  size : UInt32

def laneRanges (f : Field) : List LaneRange :=
  match f.ty with
  | .scalar _ | .inline _ => [⟨none, f.offset, f.size⟩]
  | .vector k lanes =>
    (List.range lanes.toNat).map fun l => ⟨some l, f.offset + UInt32.ofNat l * k.size, k.size⟩
  | .ref _ => [⟨none, f.offset, 4⟩]
  | .missing => []

def LaneRange.pieces (i : Nat) (ty : Ty) (r : LaneRange) : List Piece :=
  (span r.start r.size).map fun (o, n) => ⟨ty.pieceKind, i, r.lane, o, n⟩

theorem piecesOf_read (i : Nat) (f : Field) :
    piecesOf .read i f = (laneRanges f).flatMap (LaneRange.pieces i f.ty) := by
  unfold piecesOf laneRanges LaneRange.pieces
  cases f.ty with
  | vector k lanes => simp [List.flatMap_map, Ty.pieceKind]
  | _ => simp [Ty.pieceKind]

theorem piecesOf_write {f : Field} (i : Nat) (h : ∀ t, f.ty ≠ .inline t) :
    piecesOf .write i f = piecesOf .read i f := by
  unfold piecesOf
  cases hty : f.ty with
  | inline t => exact absurd hty (h t)
  | _ => rfl

variable {f : Field} {r : LaneRange} {lane : Option Nat} {byte : Nat}

theorem laneRange_exact (hend : f.exactEnd ≤ 2 ^ 32 - 4) (hr : r ∈ laneRanges f) :
    r.start.toNat + r.size.toNat ≤ f.exactEnd ∧
      f.extent r.lane = Finset.Ico r.start.toNat (r.start.toNat + r.size.toNat) := by
  unfold laneRanges at hr
  cases hty : f.ty with
  | scalar _ | inline _ | ref _ =>
    simp only [hty, List.mem_singleton] at hr
    subst hr
    simp [Field.exactEnd, Field.extent, hty]
  | vector k lanes =>
    simp only [hty, List.mem_map, List.mem_range] at hr
    obtain ⟨l, hl, rfl⟩ := hr
    have hlane : (l + 1) * k.size.toNat ≤ lanes.toNat * k.size.toNat := Nat.mul_le_mul_right _ hl
    have hle : l ≤ l * k.size.toNat := Nat.le_mul_of_pos_right _ k.size_pos
    simp only [Field.exactEnd, hty] at hend
    rw [Nat.add_mul, Nat.one_mul] at hlane
    have hstart : (f.offset + UInt32.ofNat l * k.size).toNat =
        f.offset.toNat + l * k.size.toNat := by
      rw [UInt32.toNat_add, UInt32.toNat_mul,
        UInt32.toNat_ofNat_of_lt' (by change _ < 2 ^ 32; omega),
        Nat.mod_eq_of_lt (b := 2 ^ 32) (by omega), Nat.mod_eq_of_lt (by omega)]
    constructor
    · simp only [Field.exactEnd, hty, hstart]
      omega
    · simp only [Field.extent, hty, hl, if_true, hstart, Nat.add_mul, Nat.one_mul, Nat.add_assoc]
  | missing => simp [hty] at hr

theorem exists_laneRange (h : byte ∈ f.extent lane) : ∃ r ∈ laneRanges f, r.lane = lane := by
  unfold Field.extent at h
  unfold laneRanges
  split at h
  · rename_i hty
    simp [hty]
  · rename_i hty
    simp [hty]
  · rename_i k lanes l hty
    split at h
    · rename_i hl
      simpa [hty] using hl
    · simp at h
  · rename_i hty
    simp [hty]
  · simp at h

theorem laneRanges_sorted (f : Field) :
    (laneRanges f).Pairwise fun r r' => ∃ a b, r.lane = some a ∧ r'.lane = some b ∧ a < b := by
  unfold laneRanges
  cases f.ty with
  | vector k lanes =>
    refine List.pairwise_map.mpr (List.pairwise_lt_range.imp ?_)
    intro a b hab
    exact ⟨a, b, rfl, rfl, hab⟩
  | missing => exact List.Pairwise.nil
  | _ => exact List.pairwise_singleton _ _

end lanes

section fields

variable {mode : Mode} {i : Nat} {f : Field} {p : Piece}

theorem span_stop {offset size : UInt32} (h : offset.toNat + size.toNat ≤ 2 ^ 32 - 4) :
    (offset + size).toNat = offset.toNat + size.toNat :=
  toNat_add_of_lt (by omega)

theorem mem_lanePieces {r : LaneRange} {ty : Ty}
    (hend : r.start.toNat + r.size.toNat ≤ 2 ^ 32 - 4) (hp : p ∈ r.pieces i ty) :
    p.kind = ty.pieceKind ∧ p.field = i ∧ p.lane = r.lane ∧ r.start.toNat ≤ p.offset.toNat ∧
      0 < p.size.toNat ∧ p.offset.toNat + p.size.toNat ≤ r.start.toNat + r.size.toNat ∧
      p.offset.toNat % 4 + p.size.toNat ≤ 4 := by
  obtain ⟨⟨o, n⟩, hpart, rfl⟩ := List.mem_map.mp hp
  have hstop := span_stop hend
  have hbounds := mem_spanTo_bounds (hstop.trans_le hend) hpart
  rw [hstop] at hbounds
  exact ⟨rfl, rfl, rfl, hbounds⟩

theorem lanePieces_sorted {r : LaneRange} (i : Nat) (ty : Ty)
    (hend : r.start.toNat + r.size.toNat ≤ 2 ^ 32 - 4) : (r.pieces i ty).Pairwise Piece.Leads := by
  have hstop : (r.start + r.size).toNat ≤ 2 ^ 32 - 4 := (span_stop hend).trans_le hend
  refine List.pairwise_map.mpr ((spanTo_sorted hstop r.start).imp ?_)
  rintro ⟨o, n⟩ ⟨o', n'⟩ ⟨hword, hle⟩
  refine ⟨rfl, rfl, ?_, hle⟩
  simpa only [Piece.word, toNat_div_four] using hword

theorem piecesOf_read_sorted (i : Nat) (hend : f.exactEnd ≤ 2 ^ 32 - 4) :
    (piecesOf .read i f).Pairwise fun p q => p.Precedes q ∨ p.Leads q := by
  have hlanes : ∀ r ∈ laneRanges f, r.start.toNat + r.size.toNat ≤ 2 ^ 32 - 4 := by
    intro r hr
    exact (laneRange_exact hend hr).1.trans hend
  rw [piecesOf_read, List.pairwise_flatMap]
  constructor
  · intro r hr
    exact (lanePieces_sorted i f.ty (hlanes r hr)).imp Or.inr
  · refine (laneRanges_sorted f).imp_of_mem ?_
    rintro r r' hr hr' ⟨a, b, ha, hb, hab⟩ p hp q hq
    obtain ⟨-, hpf, hpl, -⟩ := mem_lanePieces (hlanes r hr) hp
    obtain ⟨-, hqf, hql, -⟩ := mem_lanePieces (hlanes r' hr') hq
    exact .inl (.inr ⟨hpf.trans hqf.symm, a, b, hpl.trans ha, hql.trans hb, hab⟩)

theorem piecesOf_sorted (mode : Mode) (i : Nat) (hend : f.exactEnd ≤ 2 ^ 32 - 4) :
    (piecesOf mode i f).Pairwise fun p q => p.Precedes q ∨ p.Leads q := by
  cases mode with
  | read => exact piecesOf_read_sorted i hend
  | write =>
    by_cases hinline : ∃ t, f.ty = .inline t
    · obtain ⟨t, hty⟩ := hinline
      simp only [piecesOf, hty]
      exact List.pairwise_singleton _ _
    · rw [piecesOf_write i (not_exists.mp hinline)]
      exact piecesOf_read_sorted i hend

theorem mem_piecesOf_read (hend : f.exactEnd ≤ 2 ^ 32 - 4) (hp : p ∈ piecesOf .read i f) :
    p.kind = f.ty.pieceKind ∧ p.field = i ∧ p.bytes.Nonempty ∧ p.bytes ⊆ f.extent p.lane ∧
      ∀ byte ∈ p.bytes, byte / 4 = p.word.toNat := by
  rw [piecesOf_read, List.mem_flatMap] at hp
  obtain ⟨r, hr, hp⟩ := hp
  obtain ⟨hle, hextent⟩ := laneRange_exact hend hr
  obtain ⟨hkind, hfield, hlane, hstart, hpos, hstop, hword⟩ := mem_lanePieces (hle.trans hend) hp
  refine ⟨hkind, hfield, ?_, ?_, ?_⟩
  · exact Finset.nonempty_Ico.mpr (by omega)
  · rw [hlane, hextent]
    exact Finset.Ico_subset_Ico hstart hstop
  · intro byte hbyte
    rw [Piece.bytes, Finset.mem_Ico] at hbyte
    rw [Piece.word, toNat_div_four]
    omega

theorem exists_piece (i : Nat) (hend : f.exactEnd ≤ 2 ^ 32 - 4) {lane : Option Nat} {byte : Nat}
    (hbyte : byte ∈ f.extent lane) :
    ∃ p ∈ piecesOf .read i f, p.field = i ∧ p.lane = lane ∧ byte ∈ p.bytes := by
  obtain ⟨r, hr, rfl⟩ := exists_laneRange hbyte
  obtain ⟨hle, hextent⟩ := laneRange_exact hend hr
  have hstop := span_stop (hle.trans hend)
  rw [hextent, Finset.mem_Ico] at hbyte
  obtain ⟨⟨o, n⟩, hpart, hlo, hhi⟩ : ∃ part ∈ span r.start r.size,
      part.1.toNat ≤ byte ∧ byte < part.1.toNat + part.2.toNat :=
    exists_part (hstop.trans_le (hle.trans hend)) hbyte.1 (hstop ▸ hbyte.2)
  refine ⟨⟨f.ty.pieceKind, i, r.lane, o, n⟩, ?_, rfl, rfl, Finset.mem_Ico.mpr ⟨hlo, hhi⟩⟩
  rw [piecesOf_read, List.mem_flatMap]
  exact ⟨r, hr, List.mem_map_of_mem hpart⟩

theorem exactEnd_of_extent {lane : Option Nat} {byte : Nat} (hend : f.exactEnd ≤ 2 ^ 32 - 4)
    (hbyte : byte ∈ f.extent lane) : byte < f.exactEnd := by
  obtain ⟨r, hr, rfl⟩ := exists_laneRange hbyte
  obtain ⟨hle, hextent⟩ := laneRange_exact hend hr
  rw [hextent, Finset.mem_Ico] at hbyte
  omega

end fields

section groups

variable {fields : List Field} {size : UInt32} {mode : Mode} {g : Group}

theorem pieces_sorted (mode : Mode) (hend : ∀ f ∈ fields, f.exactEnd ≤ 2 ^ 32 - 4) :
    (pieces mode fields).Pairwise fun p q => p.Precedes q ∨ p.Leads q := by
  rw [pieces, List.pairwise_flatMap]
  constructor
  · rintro ⟨f, i⟩ hfi
    have hf := List.mem_of_getElem? (List.mem_zipIdx_iff_getElem?.mp hfi)
    exact piecesOf_sorted mode i (hend f hf)
  · have hidx : (fields.zipIdx).Pairwise fun x y => x.2 < y.2 := by
      rw [← List.pairwise_map, List.zipIdx_map_snd, List.pairwise_iff_getElem]
      intro i j hi hj hij
      simpa using hij
    refine hidx.imp ?_
    rintro ⟨f, i⟩ ⟨f', j⟩ hij p hp q hq
    have hpf : p.field = i := field_of_mem_piecesOf hp
    have hqf : q.field = j := field_of_mem_piecesOf hq
    exact .inl (.inl (hpf.trans_lt (hij.trans_eq hqf.symm)))

theorem group_ordered (hend : ∀ f ∈ fields, f.exactEnd ≤ 2 ^ 32 - 4)
    (hg : g ∈ resolve fields size mode) : g.pieces.Pairwise Piece.Precedes := by
  have hword : ∀ p ∈ g.pieces, g.word = p.word := fun p hp => (of_mem_group hg hp).2
  have hsorted : g.pieces.Pairwise fun p q => p.Precedes q ∨ p.Leads q := by
    rw [resolve_eq] at hg
    obtain ⟨i, -, rfl⟩ := List.mem_map.mp hg
    exact (pieces_sorted mode hend).filter _
  refine hsorted.imp_of_mem ?_
  rintro p q hp hq (hpq | ⟨-, -, hlt, -⟩)
  · exact hpq
  · rw [← hword p hp, ← hword q hq] at hlt
    exact absurd hlt (Nat.lt_irrefl _)

theorem flatMap_filter_perm (ps : List Piece) (n : Nat) (h : ∀ p ∈ ps, p.word.toNat < n) :
    ((List.range n).flatMap fun i => ps.filter fun p => p.word.toNat == i).Perm ps := by
  induction n generalizing ps with
  | zero =>
    have hnil : ps = [] := List.eq_nil_iff_forall_not_mem.mpr fun p hp => by simpa using h p hp
    simp [hnil]
  | succ n ih =>
    have hfront : ((List.range n).flatMap fun i => ps.filter fun p => p.word.toNat == i) =
        (List.range n).flatMap fun i =>
          (ps.filter fun p => p.word.toNat < n).filter fun p => p.word.toNat == i := by
      apply List.flatMap_congr
      intro i hi
      rw [List.mem_range] at hi
      rw [List.filter_filter]
      apply List.filter_congr
      intro p _
      rw [Bool.eq_iff_iff, Bool.and_eq_true, beq_iff_eq, decide_eq_true_eq]
      omega
    have hlast : (ps.filter fun p => p.word.toNat == n) =
        ps.filter fun p => !decide (p.word.toNat < n) := by
      apply List.filter_congr
      intro p hp
      have hlt := h p hp
      rw [Bool.eq_iff_iff, beq_iff_eq, Bool.not_eq_true', decide_eq_false_iff_not]
      omega
    rw [List.range_succ, List.flatMap_append, List.flatMap_singleton, hfront, hlast]
    refine List.Perm.trans ?_ (List.filter_append_perm (fun p : Piece => p.word.toNat < n) ps)
    apply List.Perm.append_right
    apply ih
    intro p hp
    simpa using (List.mem_filter.mp hp).2

theorem groups_perm (fields : List Field) (size : UInt32) (mode : Mode) :
    ((resolve fields size mode).flatMap (·.pieces)).Perm (pieces mode fields) := by
  rw [resolve_eq, List.flatMap_map]
  exact flatMap_filter_perm _ _ fun p hp => word_lt_wordCount hp

theorem length_resolve (fields : List Field) (size : UInt32) (mode : Mode) :
    (resolve fields size mode).length = wordCount size (pieces mode fields) := by
  rw [resolve_eq, List.length_map, List.length_range]

theorem word_of_getElem? {i : Nat} (hg : (resolve fields size mode)[i]? = some g) :
    g.word.toNat = i := by
  have hle := wordCount_le size (pieces mode fields)
  rw [resolve_eq, List.getElem?_map, Option.map_eq_some_iff] at hg
  obtain ⟨j, hj, rfl⟩ := hg
  obtain ⟨hlt, rfl⟩ := List.getElem?_eq_some_iff.mp hj
  rw [List.length_range] at hlt
  rw [List.getElem_range]
  exact UInt32.toNat_ofNat_of_lt' (by change _ < 2 ^ 32; omega)

theorem wordCount_eq {ps : List Piece} (h : ∀ p ∈ ps, p.word.toNat < ((size + 3) / 4).toNat) :
    wordCount size ps = ((size + 3) / 4).toNat := by
  unfold wordCount
  generalize ((size + 3) / 4).toNat = n at h
  induction ps with
  | nil => rfl
  | cons p ps ih =>
    rw [List.forall_mem_cons] at h
    rw [List.foldl_cons, max_eq_left h.1, ih h.2]

theorem roundUp_toNat (hsize : size.toNat ≤ 2 ^ 32 - 4) :
    ((size + 3) / 4).toNat = (size.toNat + 3) / 4 := by
  have hadd : (size + 3).toNat = size.toNat + 3 := toNat_add_of_lt (by simp; omega)
  rw [toNat_div_four, hadd]

theorem countP_eq_one {α : Type} {P : α → Bool} {l : List α} (hex : ∃ x ∈ l, P x = true)
    (hone : l.Pairwise fun x y => ¬ (P x = true ∧ P y = true)) : l.countP P = 1 := by
  induction l with
  | nil => simp at hex
  | cons x l ih =>
    obtain ⟨hx, hl⟩ := List.pairwise_cons.mp hone
    by_cases hp : P x = true
    · have hrest : l.countP P = 0 := List.countP_eq_zero.mpr fun y hy hpy => hx y hy ⟨hp, hpy⟩
      rw [List.countP_cons_of_pos hp, hrest]
    · rw [List.countP_cons_of_neg hp]
      obtain ⟨y, hy, hpy⟩ := hex
      rcases List.mem_cons.mp hy with rfl | hy
      · exact absurd hpy hp
      · exact ih ⟨y, hy, hpy⟩ hl

end groups

section partition

variable {fields : List Field} {size : UInt32}

structure Partitions (fields : List Field) (groups : List Group) : Prop where
  numbered : ∀ (i : Nat) (g : Group), groups[i]? = some g → g.word.toNat = i
  once : ∀ (i : Nat) (f : Field), fields[i]? = some f → ∀ lane, ∀ byte ∈ f.extent lane,
    (groups.flatMap (·.pieces)).countP
      (fun p => p.field = i ∧ p.lane = lane ∧ byte ∈ p.bytes) = 1
  inField : ∀ g ∈ groups, ∀ p ∈ g.pieces, ∃ f, fields[p.field]? = some f ∧
    p.kind = f.ty.pieceKind ∧ p.bytes.Nonempty ∧ p.bytes ⊆ f.extent p.lane
  inWord : ∀ g ∈ groups, ∀ p ∈ g.pieces, ∀ byte ∈ p.bytes, byte / 4 = g.word.toNat
  ordered : ∀ g ∈ groups, g.pieces.Pairwise Piece.Precedes

theorem count_byte (hend : ∀ f ∈ fields, f.exactEnd ≤ 2 ^ 32 - 4) {i : Nat} {f : Field}
    (hf : fields[i]? = some f) {lane : Option Nat} {byte : Nat} (hbyte : byte ∈ f.extent lane) :
    (pieces .read fields).countP (fun p => p.field = i ∧ p.lane = lane ∧ byte ∈ p.bytes) = 1 := by
  apply countP_eq_one
  · obtain ⟨p, hp, hlies⟩ := exists_piece i (hend f (List.mem_of_getElem? hf)) hbyte
    exact ⟨p, mem_pieces_iff.mpr ⟨i, f, hf, hp⟩, decide_eq_true hlies⟩
  · refine (pieces_sorted .read hend).imp ?_
    intro p q hpq hboth
    simp only [decide_eq_true_eq, Piece.bytes, Finset.mem_Ico] at hboth
    obtain ⟨⟨hpf, hpl, hpb⟩, hqf, hql, hqb⟩ := hboth
    rcases hpq with (hlt | ⟨-, a, b, ha, hb, hlt⟩) | ⟨-, -, -, hle⟩
    · omega
    · rw [hpl] at ha
      rw [hql, ha, Option.some.injEq] at hb
      omega
    · omega

theorem mem_group_read (hend : ∀ f ∈ fields, f.exactEnd ≤ 2 ^ 32 - 4) {g : Group}
    (hg : g ∈ resolve fields size .read) {p : Piece} (hp : p ∈ g.pieces) :
    ∃ f, fields[p.field]? = some f ∧ p.kind = f.ty.pieceKind ∧ p.bytes.Nonempty ∧
      p.bytes ⊆ f.extent p.lane ∧ ∀ byte ∈ p.bytes, byte / 4 = g.word.toNat := by
  obtain ⟨hmem, hword⟩ := of_mem_group hg hp
  obtain ⟨i, f, hf, hpf⟩ := mem_pieces_iff.mp hmem
  obtain ⟨hkind, rfl, hne, hsub, hin⟩ := mem_piecesOf_read (hend f (List.mem_of_getElem? hf)) hpf
  rw [hword]
  exact ⟨f, hf, hkind, hne, hsub, hin⟩

theorem partitions_resolve (size : UInt32) (hend : ∀ f ∈ fields, f.exactEnd ≤ 2 ^ 32 - 4) :
    Partitions fields (resolve fields size .read) where
  numbered _ _ hg := word_of_getElem? hg
  once i f hf lane byte hbyte := by
    rw [(groups_perm fields size .read).countP_eq]
    exact count_byte hend hf hbyte
  inField g hg p hp := by
    obtain ⟨f, hf, hkind, hne, hsub, -⟩ := mem_group_read hend hg hp
    exact ⟨f, hf, hkind, hne, hsub⟩
  inWord g hg p hp := by
    obtain ⟨_, _, _, _, _, hin⟩ := mem_group_read hend hg hp
    exact hin
  ordered _ hg := group_ordered hend hg

theorem word_lt_of_exactEnd {stop : Nat} (hend : ∀ f ∈ fields, f.exactEnd ≤ 2 ^ 32 - 4)
    (hin : ∀ f ∈ fields, f.exactEnd ≤ stop) {p : Piece} (hp : p ∈ pieces .read fields) :
    p.word.toNat < (stop + 3) / 4 := by
  obtain ⟨i, f, hf, hpf⟩ := mem_pieces_iff.mp hp
  have hf := List.mem_of_getElem? hf
  obtain ⟨-, -, ⟨byte, hbyte⟩, hsub, hword⟩ := mem_piecesOf_read (hend f hf) hpf
  have hlt := exactEnd_of_extent (hend f hf) (hsub hbyte)
  have hle := hin f hf
  have hdiv := hword byte hbyte
  omega

/-- However the fields lie, reading a struct word by word takes every byte of every field once. -/
theorem read_coverage_partitions (hsize : size.toNat ≤ 2 ^ 32 - 4)
    (hend : ∀ f ∈ fields, f.exactEnd ≤ 2 ^ 32 - 4) :
    Partitions fields (resolve fields size .read) ∧
      (size.toNat + 3) / 4 ≤ (resolve fields size .read).length ∧
      ((∀ f ∈ fields, f.exactEnd ≤ size.toNat) →
        (resolve fields size .read).length = (size.toNat + 3) / 4) := by
  refine ⟨partitions_resolve size hend, ?_, ?_⟩
  · rw [length_resolve, ← roundUp_toNat hsize]
    exact le_foldl_max _ _
  · intro hin
    rw [length_resolve, ← roundUp_toNat hsize]
    apply wordCount_eq
    intro p hp
    rw [roundUp_toNat hsize]
    exact word_lt_of_exactEnd hend hin hp

def strayFields : List Field :=
  [⟨"a", 3, .scalar .u32, 4⟩, ⟨"b", 5, .vector .u16 3, 6⟩, ⟨"c", 2, .inline 0, 6⟩,
    ⟨"d", 9, .ref 0, 4⟩]

theorem read_coverage_stray :
    Partitions strayFields (resolve strayFields 14 .read) ∧
      (resolve strayFields 14 .read).length = 4 := by
  have hsize : (14 : UInt32).toNat ≤ 2 ^ 32 - 4 := by decide
  have hend : ∀ f ∈ strayFields, f.exactEnd ≤ 2 ^ 32 - 4 := by decide
  obtain ⟨hparts, -, hlen⟩ := read_coverage_partitions hsize hend
  exact ⟨hparts, hlen (by decide)⟩

end partition

end Coverage

end WordLayout
