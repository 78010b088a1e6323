import Mathlib
import WordLayout.Proofs.Coverage

namespace WordLayout

namespace Field

def bytes (f : Field) : Finset Nat := Finset.Ico f.offset.toNat f.stop

end Field

def Ty.FitsAt : Ty → Nat → Prop
  | .scalar k, offset | .vector k _, offset => k.size.toNat ∣ offset
  | .inline _, offset | .ref _, offset => 4 ∣ offset
  | .missing, _ => False

structure Field.LaidOut (m : Module) (h : Handle) (size : UInt32) (f : Field) : Prop where
  known : f.ty.Known m
  size_eq : f.size = m.sizeOf f.ty
  fits : f.ty.FitsAt f.offset.toNat
  stop_le : f.stop ≤ size.toNat
  earlier : ∀ t, f.ty = .inline t → t < h

structure StructLaidOut (m : Module) (h : Handle) (size : UInt32) (fields : List Field) :
    Prop where
  nonempty : fields ≠ []
  names : (fields.map (·.name)).Nodup
  disjoint : fields.Pairwise fun a b => Disjoint a.bytes b.bytes
  each : ∀ f ∈ fields, f.LaidOut m h size

def Body.LaidOut (m : Module) (h : Handle) (size : UInt32) : Body → Prop
  | .struct fields => StructLaidOut m h size fields
  | .union variants => UnionSound m h size variants
  | .missing => False

structure Module.LaidOut (m : Module) : Prop where
  names : (m.defs.map (·.name)).Nodup
  aligned : ∀ d ∈ m.defs, 4 ∣ d.size.toNat
  bodies : ∀ (i : Nat) (d : TypeDef), m.defs[i]? = some d →
    d.body.LaidOut m (UInt32.ofNat i) d.size

namespace Validation

open Word

theorem fitsAt_iff {m : Module} {ty : Ty} (hk : ty.Known m) (offset : Nat) :
    ty.FitsAt offset ↔ offset % (alignment ty).toNat = 0 := by
  rw [← Nat.dvd_iff_mod_eq_zero]
  cases ty with
  | missing => cases hk
  | _ => rfl

theorem laidOut_iff_placed {m : Module} {h : Handle} {size : UInt32} {f : Field} :
    f.LaidOut m h size ↔ f.Placed m size ∧ ∀ t, f.ty = .inline t → t < h := by
  constructor
  · intro hl
    exact ⟨⟨hl.known, hl.size_eq, (fitsAt_iff hl.known _).mp hl.fits, hl.stop_le⟩, hl.earlier⟩
  · rintro ⟨hp, hearlier⟩
    exact ⟨hp.known, hp.size_eq, (fitsAt_iff hp.known _).mpr hp.aligned, hp.stop_le, hearlier⟩

theorem disjoint_of_apart {a b : Field} (h : a.Apart b) : Disjoint a.bytes b.bytes := by
  rw [Finset.disjoint_left]
  intro byte ha hb
  simp only [Field.bytes, Finset.mem_Ico] at ha hb
  rcases h with h | h <;> omega

theorem stop_le_of_disjoint {a b : Field} (h : Disjoint a.bytes b.bytes)
    (hle : a.offset.toNat ≤ b.offset.toNat) (hb : 0 < b.size.toNat) :
    a.stop ≤ b.offset.toNat := by
  by_contra hlt
  have hmem : b.offset.toNat ∈ a.bytes := Finset.mem_Ico.mpr ⟨hle, by omega⟩
  have hmem' : b.offset.toNat ∈ b.bytes := by
    simp only [Field.bytes, Field.stop, Finset.mem_Ico]
    omega
  exact Finset.disjoint_left.mp h hmem hmem'

theorem overlaps_eq_nil {fields : List Field} (hx : ∀ f ∈ fields, f.stop < 2 ^ 32)
    (hpos : ∀ f ∈ fields, 0 < f.size.toNat)
    (hd : fields.Pairwise fun a b => Disjoint a.bytes b.bytes) : overlaps fields = [] := by
  have hperm := List.mergeSort_perm fields fun a b => a.offset ≤ b.offset
  have hsorted : (fields.mergeSort fun a b => a.offset ≤ b.offset).Pairwise
      fun a b => decide (a.offset ≤ b.offset) = true := by
    apply List.pairwise_mergeSort
    · intro a b c hab hbc
      simp only [decide_eq_true_eq] at hab hbc ⊢
      exact UInt32.le_trans hab hbc
    · intro a b
      simp only [Bool.or_eq_true, decide_eq_true_eq]
      exact UInt32.le_total _ _
  have hdis := (hperm.pairwise_iff fun {a b} hab => Disjoint.symm hab).mpr hd
  have hnext := (isChain_iff_zip_tail _).mp (hsorted.and hdis).isChain
  simp only [overlaps, List.filter_eq_nil_iff, decide_eq_true_eq, UInt32.not_lt]
  rintro ⟨a, b⟩ hp
  obtain ⟨hle, hab⟩ := hnext (a, b) hp
  have ha := hperm.mem_iff.mp (List.of_mem_zip hp).1
  have hb := hperm.mem_iff.mp (List.mem_of_mem_tail (List.of_mem_zip hp).2)
  rw [decide_eq_true_eq, UInt32.le_iff_toNat_le] at hle
  have hstop := stop_le_of_disjoint hab hle (hpos b hb)
  rwa [UInt32.le_iff_toNat_le, toNat_add_of_lt (hx a ha)]

section bodies

variable {m : Module} {h : Handle} {d : TypeDef}

theorem structLaidOut_of_sound {size : UInt32} {fields : List Field}
    (hs : StructSound m h size fields) : StructLaidOut m h size fields := by
  refine ⟨hs.nonempty, hs.names, hs.apart.imp disjoint_of_apart, ?_⟩
  intro f hf
  exact laidOut_iff_placed.mpr ⟨hs.placed f hf, hs.earlier f hf⟩

theorem structErrors_of_laidOut {fields : List Field} (hx : ∀ f ∈ fields, f.stop < 2 ^ 32)
    (hpos : ∀ f ∈ fields, 0 < f.size.toNat) (hl : StructLaidOut m h d.size fields) :
    structErrors m d fields = [] := by
  apply (structErrors_eq_nil_iff m d fields).mpr
  refine ⟨hl.nonempty, hl.names, ?_, overlaps_eq_nil hx hpos hl.disjoint⟩
  intro f hf
  exact (fieldFlaws_eq_nil_iff_placed (hx f hf)).mpr (laidOut_iff_placed.mp (hl.each f hf)).1

theorem unionErrors_of_sound {variants : List Variant}
    (hx : ∀ v ∈ variants, ∀ offset t, v.payload = .struct offset t →
      offset.toNat + (m.sizeOf (.inline t)).toNat < 2 ^ 32)
    (hs : UnionSound m h d.size variants) : unionErrors m d variants = [] := by
  apply (unionErrors_eq_nil_iff m d variants).mpr
  refine ⟨hs.nonempty, UInt32.le_iff_toNat_le.mpr hs.room, hs.names, ?_⟩
  intro v hv
  cases hp : v.payload with
  | struct offset t =>
    have hps := hs.payload v hv offset t hp
    exact (payloadFlaws_eq_nil_iff_exact (hx v hv offset t hp)).mpr
      ⟨hps.known, hps.over_tag, hps.aligned, hps.stop_le⟩
  | _ => rfl

theorem laidOut_of_validate (hv : m.validate = []) (hx : m.ExactEnds) : m.LaidOut := by
  obtain ⟨hnames, hdefs, -⟩ := validate_eq_nil_iff.mp hv
  refine ⟨hnames, fun d hd => size_aligned (hdefs d hd), ?_⟩
  intro i d hd
  have hs := sound_of_validate hv hx hd
  cases hb : d.body with
  | struct fields =>
    rw [hb] at hs
    exact structLaidOut_of_sound hs
  | union variants =>
    rw [hb] at hs
    exact hs
  | missing =>
    rw [hb] at hs
    cases hs

end bodies

end Validation

namespace Module.LaidOut

variable {m : Module} (hl : m.LaidOut) {i : Nat} {d : TypeDef} {fields : List Field}
include hl

theorem struct (hd : m.defs[i]? = some d) (hb : d.body = .struct fields) :
    StructLaidOut m (UInt32.ofNat i) d.size fields := by
  have hbody := hl.bodies i d hd
  rwa [hb] at hbody

theorem union (hd : m.defs[i]? = some d) {variants : List Variant}
    (hb : d.body = .union variants) : UnionSound m (UInt32.ofNat i) d.size variants := by
  have hbody := hl.bodies i d hd
  rwa [hb] at hbody

theorem exactEnds : m.ExactEnds := by
  intro d hd e he
  obtain ⟨i, hi⟩ := List.getElem?_of_mem hd
  have hlt := d.size.toNat_lt
  unfold memberEnds at he
  cases hb : d.body with
  | struct fields =>
    rw [hb] at he
    obtain ⟨f, hf, rfl⟩ := List.mem_map.mp he
    exact (((hl.struct hi hb).each f hf).stop_le).trans_lt hlt
  | union variants =>
    simp only [hb, List.mem_filterMap] at he
    obtain ⟨v, hv, hend⟩ := he
    cases hp : v.payload with
    | struct offset t =>
      rw [hp] at hend
      obtain rfl := Option.some.inj hend
      exact (((hl.union hi hb).payload v hv offset t hp).stop_le).trans_lt hlt
    | _ => simp [hp] at hend
  | missing => simp [hb] at he

theorem field_pos (hd : m.defs[i]? = some d) (hb : d.body = .struct fields) {f : Field}
    (hf : f ∈ fields) : 0 < f.size.toNat := by
  -- by induction on the position, as what is held inline stands before it
  induction hn : i using Nat.strong_induction_on generalizing i d fields f with
  | _ n ih =>
    subst hn
    have hfl := (hl.struct hd hb).each f hf
    have hk := hfl.known
    rw [hfl.size_eq]
    cases hty : f.ty with
    | scalar k => exact k.size_pos
    | ref t => exact Nat.succ_pos 3
    | vector k lanes =>
      rw [hty] at hk
      have hleaf : (Ty.vector k lanes).leaf? = some (k, lanes.toNat) := rfl
      rw [sizeOf_leaf m hleaf]
      exact Nat.mul_pos hk.2.1 k.size_pos
    | inline t =>
      rw [hty] at hk
      obtain ⟨e, he, hu⟩ := hk
      have hlt : t.toNat < i := by
        have hearlier := UInt32.lt_iff_toNat_lt.mp (hfl.earlier t hty)
        exact hearlier.trans_le (Nat.mod_le i _)
      have hsize : m.sizeOf (.inline t) = e.size := by simp [Module.sizeOf, he]
      rw [hsize]
      cases hbe : e.body with
      | struct inner =>
        have hle := hl.struct he hbe
        obtain ⟨g, hg⟩ := List.exists_mem_of_ne_nil inner hle.nonempty
        have hpos := ih t.toNat hlt he hbe hg rfl
        have hstop := (hle.each g hg).stop_le
        simp only [Field.stop] at hstop
        omega
      | union variants => simp [TypeDef.isUnion, hbe] at hu
      | missing =>
        have hbody := hl.bodies t.toNat e he
        rw [hbe] at hbody
        cases hbody
    | missing =>
      rw [hty] at hk
      cases hk

theorem earlier (hd : m.defs[i]? = some d) {t : Handle} (ht : t ∈ Validation.dependencies m d) :
    t < UInt32.ofNat i := by
  cases hb : d.body with
  | struct fields =>
    obtain ⟨f, hf, hty, -⟩ := (Validation.mem_dependencies_struct_iff hb).mp ht
    exact ((hl.struct hd hb).each f hf).earlier t hty
  | union variants =>
    obtain ⟨v, hv, offset, hp, -⟩ := (Validation.mem_dependencies_union_iff hb).mp ht
    exact ((hl.union hd hb).payload v hv offset t hp).earlier
  | missing => simp [Validation.dependencies, hb] at ht

theorem defErrors_eq_nil (hx : m.ExactEnds) (hd : m.defs[i]? = some d) :
    Validation.defErrors m d = [] := by
  have hmem := List.mem_of_getElem? hd
  rw [Validation.defErrors, List.append_eq_nil_iff]
  refine ⟨(Validation.sizeErrors_eq_nil_iff _ _).mpr (hl.aligned d hmem), ?_⟩
  cases hb : d.body with
  | struct fields =>
    apply Validation.structErrors_of_laidOut (fun f hf => hx.field hmem hb hf) _ (hl.struct hd hb)
    intro f hf
    exact hl.field_pos hd hb hf
  | union variants =>
    exact Validation.unionErrors_of_sound (fun v hv offset t hp => hx.payload hmem hb hv hp)
      (hl.union hd hb)
  | missing =>
    have hbody := hl.bodies i d hd
    rw [hb] at hbody
    cases hbody

theorem validate_eq_nil (hx : m.ExactEnds) : m.validate = [] := by
  refine Validation.validate_eq_nil_iff.mpr ⟨hl.names, ?_, ?_⟩
  · intro d hd
    obtain ⟨i, hi⟩ := List.getElem?_of_mem hd
    exact hl.defErrors_eq_nil hx hi
  · intro i d hd t ht
    exact hl.earlier hd ht

end Module.LaidOut

namespace Validation

theorem accepts_iff_laidOut {m : Module} (hx : m.ExactEnds) : m.validate = [] ↔ m.LaidOut := by
  constructor
  · intro hv
    exact laidOut_of_validate hv hx
  · intro hl
    exact hl.validate_eq_nil hx

def chainModule : Module :=
  { name := "chain", writable := true
    defs :=
      [{ name := "Link", size := 8
         body := .struct [⟨"next", 4, .ref 1, 4⟩, ⟨"flag", 0, .scalar .u8, 1⟩,
           ⟨"kind", 2, .scalar .u16, 2⟩] },
        { name := "Pair", size := 20
          body := .struct [⟨"second", 8, .inline 0, 8⟩, ⟨"span", 16, .vector .i16 2, 4⟩,
            ⟨"first", 0, .inline 0, 8⟩] },
        { name := "Shape", size := 24
          body := .union [⟨"none", .empty⟩, ⟨"pair", .struct 4 1⟩] }] }

def crossedModule : Module :=
  { chainModule with
    defs := chainModule.defs.set 1
      { name := "Pair", size := 20
        body := .struct [⟨"second", 8, .inline 0, 8⟩, ⟨"span", 12, .vector .i16 2, 4⟩,
          ⟨"first", 0, .inline 0, 8⟩] } }

theorem accepts_iff_laidOut_chain :
    chainModule.ExactEnds ∧ chainModule.LaidOut ∧ crossedModule.ExactEnds ∧
      ¬ crossedModule.LaidOut := by
  have hx : chainModule.ExactEnds := by decide
  have hx' : crossedModule.ExactEnds := by decide
  have hv : chainModule.validate = [] := by cbv
  have hv' : crossedModule.validate ≠ [] := by cbv; simp
  exact ⟨hx, (accepts_iff_laidOut hx).mp hv, hx', fun hl => hv' ((accepts_iff_laidOut hx').mpr hl)⟩

end Validation

end WordLayout
