import Mathlib
import WordLayout.Proofs.Validation.Checks

namespace WordLayout

namespace Field

def stop (f : Field) : Nat := f.offset.toNat + f.size.toNat

def Apart (a b : Field) : Prop := a.stop ≤ b.offset.toNat ∨ b.stop ≤ a.offset.toNat

theorem Apart.symm {a b : Field} (h : a.Apart b) : b.Apart a := Or.symm h

end Field

def Ty.Known (m : Module) : Ty → Prop
  | .scalar k => k.isKnown = true
  | .vector k lanes => k.isKnown = true ∧ 1 ≤ lanes.toNat ∧ lanes.toNat ≤ 4
  | .inline t | .ref t => ∃ d, m.def? t = some d ∧ d.isUnion = false
  | .missing => False

structure Field.Placed (m : Module) (size : UInt32) (f : Field) : Prop where
  known : f.ty.Known m
  size_eq : f.size = m.sizeOf f.ty
  aligned : f.offset.toNat % (Validation.alignment f.ty).toNat = 0
  stop_le : f.stop ≤ size.toNat

structure StructSound (m : Module) (h : Handle) (size : UInt32) (fields : List Field) : Prop where
  nonempty : fields ≠ []
  names : (fields.map (·.name)).Nodup
  placed : ∀ f ∈ fields, f.Placed m size
  apart : fields.Pairwise Field.Apart
  earlier : ∀ f ∈ fields, ∀ t, f.ty = .inline t → t < h

structure PayloadSound (m : Module) (h : Handle) (size offset : UInt32) (t : Handle) : Prop where
  known : (Ty.inline t).Known m
  over_tag : 4 ≤ offset.toNat
  aligned : offset.toNat % 4 = 0
  stop_le : offset.toNat + (m.sizeOf (.inline t)).toNat ≤ size.toNat
  earlier : t < h

structure UnionSound (m : Module) (h : Handle) (size : UInt32) (variants : List Variant) :
    Prop where
  nonempty : variants ≠ []
  room : 4 ≤ size.toNat
  names : (variants.map (·.name)).Nodup
  payload : ∀ v ∈ variants, ∀ offset t, v.payload = .struct offset t →
    PayloadSound m h size offset t

def Body.Sound (m : Module) (h : Handle) (size : UInt32) : Body → Prop
  | .struct fields => StructSound m h size fields
  | .union variants => UnionSound m h size variants
  | .missing => False

structure Module.WellFormed (m : Module) : Prop where
  names : (m.defs.map (·.name)).Nodup
  aligned : ∀ h d, m.def? h = some d → d.size.toNat % 4 = 0
  sound : ∀ h d, m.def? h = some d → d.body.Sound m h d.size

structure Module.StructsSound (m : Module) : Prop where
  aligned : ∀ h d, m.def? h = some d → d.size.toNat % 4 = 0
  present : ∀ h d, m.def? h = some d → d.body ≠ .missing
  sound : ∀ h d fields, m.def? h = some d → d.body = .struct fields →
    StructSound m h d.size fields

def memberEnds (m : Module) (d : TypeDef) : List Nat :=
  match d.body with
  | .struct fields => fields.map Field.stop
  | .union variants =>
    variants.filterMap fun v =>
      match v.payload with
      | .struct offset t => some (offset.toNat + (m.sizeOf (.inline t)).toNat)
      | _ => none
  | .missing => []

def Module.ExactEnds (m : Module) : Prop := ∀ d ∈ m.defs, ∀ e ∈ memberEnds m d, e < 2 ^ 32

instance (m : Module) : Decidable m.ExactEnds :=
  inferInstanceAs (Decidable (∀ d ∈ m.defs, ∀ e ∈ memberEnds m d, e < 2 ^ 32))

def fieldEnds (d : TypeDef) : List Nat :=
  match d.body with
  | .struct fields => fields.map Field.stop
  | .union _ | .missing => []

def Module.ExactFields (m : Module) : Prop := ∀ d ∈ m.defs, ∀ e ∈ fieldEnds d, e < 2 ^ 32

instance (m : Module) : Decidable m.ExactFields :=
  inferInstanceAs (Decidable (∀ d ∈ m.defs, ∀ e ∈ fieldEnds d, e < 2 ^ 32))

namespace Module

theorem mem_of_def? {m : Module} {h : Handle} {d : TypeDef} (hd : m.def? h = some d) :
    d ∈ m.defs := List.mem_of_getElem? hd

theorem ExactEnds.field {m : Module} (hx : m.ExactEnds) {d : TypeDef} (hd : d ∈ m.defs)
    {fields : List Field} (hb : d.body = .struct fields) {f : Field} (hf : f ∈ fields) :
    f.stop < 2 ^ 32 := by
  apply hx d hd
  simp only [memberEnds, hb]
  exact List.mem_map_of_mem hf

theorem ExactEnds.payload {m : Module} (hx : m.ExactEnds) {d : TypeDef} (hd : d ∈ m.defs)
    {variants : List Variant} (hb : d.body = .union variants) {v : Variant} (hv : v ∈ variants)
    {offset : UInt32} {t : Handle} (hp : v.payload = .struct offset t) :
    offset.toNat + (m.sizeOf (.inline t)).toNat < 2 ^ 32 := by
  apply hx d hd
  simp only [memberEnds, hb, List.mem_filterMap]
  exact ⟨v, hv, by rw [hp]⟩

theorem ExactEnds.exactFields {m : Module} (hx : m.ExactEnds) : m.ExactFields := by
  intro d hd e he
  apply hx d hd
  cases hb : d.body with
  | struct fields => simpa only [memberEnds, fieldEnds, hb] using he
  | union _ | missing => simp [fieldEnds, hb] at he

theorem ExactFields.field {m : Module} (hx : m.ExactFields) {d : TypeDef} (hd : d ∈ m.defs)
    {fields : List Field} (hb : d.body = .struct fields) {f : Field} (hf : f ∈ fields) :
    f.stop < 2 ^ 32 := by
  apply hx d hd
  simp only [fieldEnds, hb]
  exact List.mem_map_of_mem hf

end Module

namespace Validation

open Word

theorem typeFlaw?_eq_none_iff (m : Module) (ty : Ty) : typeFlaw? m ty = none ↔ ty.Known m := by
  cases ty with
  | scalar k => simp [typeFlaw?, Ty.Known]
  | vector k lanes =>
    cases hk : k.isKnown
    · simp [typeFlaw?, Ty.Known, hk]
    · simp [typeFlaw?, Ty.Known, hk, UInt8.le_iff_toNat_le]
  | inline t => exact targetFlaw?_eq_none_iff m .inline t
  | ref t => exact targetFlaw?_eq_none_iff m .reference t
  | missing => simp [typeFlaw?, Ty.Known]

theorem fieldFlaws_eq_nil_iff_placed {m : Module} {size : UInt32} {f : Field}
    (hx : f.stop < 2 ^ 32) : fieldFlaws m size f = [] ↔ f.Placed m size := by
  have ha : f.offset % alignment f.ty = 0 ↔
      f.offset.toNat % (alignment f.ty).toNat = 0 := by
    rw [← UInt32.toNat_inj, UInt32.toNat_mod]
    rfl
  rw [fieldFlaws_eq_nil_iff, typeFlaw?_eq_none_iff, ha, UInt32.le_iff_toNat_le,
    toNat_add_of_lt hx]
  constructor
  · rintro ⟨hk, hs, ha, hstop⟩
    exact ⟨hk, hs, ha, hstop⟩
  · intro hp
    exact ⟨hp.known, hp.size_eq, hp.aligned, hp.stop_le⟩

instance : Trans (fun a b : Field => a.stop ≤ b.offset.toNat)
    (fun a b : Field => a.stop ≤ b.offset.toNat) (fun a b : Field => a.stop ≤ b.offset.toNat) where
  trans {a b c} hab hbc := by
    have hb : b.offset.toNat ≤ b.stop := Nat.le_add_right _ _
    exact hab.trans (hb.trans hbc)

theorem isChain_iff_zip_tail {α : Type} {R : α → α → Prop} (l : List α) :
    l.IsChain R ↔ ∀ p ∈ l.zip l.tail, R p.1 p.2 := by
  induction l with
  | nil => simp
  | cons a l ih =>
    cases l with
    | nil => simp
    | cons b l =>
      rw [List.isChain_cons_cons, ih]
      simp only [List.tail_cons, List.zip_cons_cons, List.forall_mem_cons]

theorem apart_of_overlaps {fields : List Field} (h : overlaps fields = [])
    (hx : ∀ f ∈ fields, f.stop < 2 ^ 32) : fields.Pairwise Field.Apart := by
  have hperm := List.mergeSort_perm fields fun a b => a.offset ≤ b.offset
  simp only [overlaps, List.filter_eq_nil_iff, decide_eq_true_eq, UInt32.not_lt] at h
  have hchain : (fields.mergeSort fun a b => a.offset ≤ b.offset).IsChain
      (fun a b : Field => a.stop ≤ b.offset.toNat) := by
    rw [isChain_iff_zip_tail]
    intro p hp
    have hle := h p hp
    have hmem := hperm.mem_iff.mp (List.of_mem_zip hp).1
    rwa [UInt32.le_iff_toNat_le, toNat_add_of_lt (hx _ hmem)] at hle
  exact (hperm.pairwise_iff Field.Apart.symm).mp (hchain.pairwise.imp Or.inl)

section bodies

variable {m : Module} {h : Handle} {d : TypeDef}

theorem mem_dependencies_struct_iff {fields : List Field} (hb : d.body = .struct fields)
    {t : Handle} :
    t ∈ dependencies m d ↔
      ∃ f ∈ fields, f.ty = .inline t ∧ f.ty.Known m ∧ f.size = m.sizeOf f.ty := by
  simp only [dependencies, hb, List.mem_filterMap]
  apply exists_congr
  intro f
  apply and_congr_right
  intro hf
  have hsized : isSized m f = true ↔ f.ty.Known m ∧ f.size = m.sizeOf f.ty := by
    rw [isSized, Bool.and_eq_true, Option.isNone_iff_eq_none, typeFlaw?_eq_none_iff, beq_iff_eq]
  rw [← hsized]
  cases f.ty <;> simp [and_comm]

theorem mem_dependencies_union_iff {variants : List Variant} (hb : d.body = .union variants)
    {t : Handle} :
    t ∈ dependencies m d ↔
      ∃ v ∈ variants, ∃ offset, v.payload = .struct offset t ∧ (Ty.inline t).Known m := by
  simp only [dependencies, hb, List.mem_filterMap]
  apply exists_congr
  intro v
  apply and_congr_right
  intro hv
  cases v.payload with
  | struct offset u =>
    simp only [Option.isNone_iff_eq_none, Option.ite_none_right_eq_some,
      targetFlaw?_eq_none_iff m .inline u, Option.some.injEq, Payload.struct.injEq]
    constructor
    · rintro ⟨hk, rfl⟩
      exact ⟨offset, ⟨rfl, rfl⟩, hk⟩
    · rintro ⟨_, ⟨rfl, rfl⟩, hk⟩
      exact ⟨hk, rfl⟩
  | _ => simp

theorem known_of_mem_dependencies {t : Handle} (ht : t ∈ dependencies m d) :
    (Ty.inline t).Known m := by
  cases hb : d.body with
  | struct fields =>
    obtain ⟨f, -, hty, hk, -⟩ := (mem_dependencies_struct_iff hb).mp ht
    rwa [hty] at hk
  | union variants =>
    obtain ⟨v, -, offset, -, hk⟩ := (mem_dependencies_union_iff hb).mp ht
    exact hk
  | missing => simp [dependencies, hb] at ht

section accepted

variable (hv : m.validate = [])
include hv

theorem field_known {fields : List Field} (hd : d ∈ m.defs) (hb : d.body = .struct fields)
    {f : Field} (hf : f ∈ fields) : f.ty.Known m ∧ f.size = m.sizeOf f.ty := by
  have hflaws := fieldFlaws_eq_nil (defErrors_eq_nil hv hd) hb hf
  obtain ⟨hty, hsize, -⟩ := (fieldFlaws_eq_nil_iff m d.size f).mp hflaws
  exact ⟨(typeFlaw?_eq_none_iff m f.ty).mp hty, hsize⟩

theorem inline_mem_dependencies {fields : List Field} (hd : d ∈ m.defs)
    (hb : d.body = .struct fields) {f : Field} (hf : f ∈ fields) {t : Handle}
    (ht : f.ty = .inline t) : t ∈ dependencies m d := by
  obtain ⟨hk, hsize⟩ := field_known hv hd hb hf
  exact (mem_dependencies_struct_iff hb).mpr ⟨f, hf, ht, hk, hsize⟩

theorem payload_mem_dependencies {variants : List Variant} (hd : d ∈ m.defs)
    (hb : d.body = .union variants) {v : Variant} (hvar : v ∈ variants) {offset : UInt32}
    {t : Handle} (hp : v.payload = .struct offset t) : t ∈ dependencies m d := by
  have hflaws := payloadFlaws_eq_nil (defErrors_eq_nil hv hd) hb hvar
  rw [hp, payloadFlaws_eq_nil_iff] at hflaws
  have hk := (targetFlaw?_eq_none_iff m .inline t).mp hflaws.1
  exact (mem_dependencies_union_iff hb).mpr ⟨v, hvar, offset, hp, hk⟩

theorem struct_of_dependency {before after : List TypeDef} (hdefs : m.defs = before ++ d :: after)
    {t : Handle} (ht : t ∈ dependencies m d) :
    ∃ e fields, m.def? t = some e ∧ e.body = .struct fields ∧ e ∈ before := by
  obtain ⟨e, he, hu⟩ := known_of_mem_dependencies ht
  have hlt : t.toNat < before.length := by
    have hd : m.defs[before.length]? = some d := by simp [hdefs]
    have hearlier := (validate_eq_nil_iff.mp hv).2.2 before.length d hd t ht
    exact (UInt32.lt_iff_toNat_lt.mp hearlier).trans_le (Nat.mod_le before.length _)
  have hmem : e ∈ before := by
    have hget : before[t.toNat]? = some e := by
      rwa [Module.def?, hdefs, List.getElem?_append_left hlt] at he
    exact List.mem_of_getElem? hget
  have herr := (List.append_eq_nil_iff.mp (defErrors_eq_nil hv (m.mem_of_def? he))).2
  cases hb : e.body with
  | struct fields => exact ⟨e, fields, he, hb, hmem⟩
  | union variants => simp [TypeDef.isUnion, hb] at hu
  | missing => simp [hb] at herr

end accepted

theorem structSound_of_errors {fields : List Field} (hb : d.body = .struct fields)
    (hx : ∀ f ∈ fields, f.stop < 2 ^ 32) (he : structErrors m d fields = [])
    (hdeps : ∀ t ∈ dependencies m d, t < h) : StructSound m h d.size fields := by
  obtain ⟨hne, hnames, hflaws, hover⟩ := (structErrors_eq_nil_iff m d fields).mp he
  have hplaced : ∀ f ∈ fields, f.Placed m d.size :=
    fun f hf => (fieldFlaws_eq_nil_iff_placed (hx f hf)).mp (hflaws f hf)
  refine ⟨hne, hnames, hplaced, apart_of_overlaps hover hx, ?_⟩
  intro f hf t ht
  have hp := hplaced f hf
  exact hdeps t ((mem_dependencies_struct_iff hb).mpr ⟨f, hf, ht, hp.known, hp.size_eq⟩)

theorem payloadFlaws_eq_nil_iff_exact {size offset : UInt32} {t : Handle}
    (hx : offset.toNat + (m.sizeOf (.inline t)).toNat < 2 ^ 32) :
    payloadFlaws m size (.struct offset t) = [] ↔
      (Ty.inline t).Known m ∧ 4 ≤ offset.toNat ∧ offset.toNat % 4 = 0 ∧
        offset.toNat + (m.sizeOf (.inline t)).toNat ≤ size.toNat := by
  have ha : offset % 4 = 0 ↔ offset.toNat % 4 = 0 := by
    rw [← UInt32.toNat_inj, toNat_mod_four]
    rfl
  rw [payloadFlaws_eq_nil_iff, ha, UInt32.le_iff_toNat_le, UInt32.le_iff_toNat_le,
    toNat_add_of_lt hx, targetFlaw?_eq_none_iff]
  rfl

theorem unionSound_of_errors {variants : List Variant} (hb : d.body = .union variants)
    (hx : ∀ v ∈ variants, ∀ offset t, v.payload = .struct offset t →
      offset.toNat + (m.sizeOf (.inline t)).toNat < 2 ^ 32)
    (he : unionErrors m d variants = []) (hdeps : ∀ t ∈ dependencies m d, t < h) :
    UnionSound m h d.size variants := by
  obtain ⟨hne, hroom, hnames, hflaws⟩ := (unionErrors_eq_nil_iff m d variants).mp he
  refine ⟨hne, UInt32.le_iff_toNat_le.mp hroom, hnames, ?_⟩
  intro v hv offset t hp
  have hfl := hflaws v hv
  rw [hp, payloadFlaws_eq_nil_iff_exact (hx v hv offset t hp)] at hfl
  obtain ⟨hk, hover, ha, hstop⟩ := hfl
  refine ⟨hk, hover, ha, hstop, ?_⟩
  exact hdeps t ((mem_dependencies_union_iff hb).mpr ⟨v, hv, offset, hp, hk⟩)

end bodies

theorem structSound_of_validate {m : Module} (hv : m.validate = []) (hx : m.ExactFields) {i : Nat}
    {d : TypeDef} (hd : m.defs[i]? = some d) {fields : List Field} (hb : d.body = .struct fields) :
    StructSound m (UInt32.ofNat i) d.size fields := by
  obtain ⟨-, hdefs, hearlier⟩ := validate_eq_nil_iff.mp hv
  have hmem := List.mem_of_getElem? hd
  have hs := (List.append_eq_nil_iff.mp (hdefs d hmem)).2
  rw [hb] at hs
  exact structSound_of_errors hb (fun f hf => hx.field hmem hb hf) hs (hearlier i d hd)

theorem structsSound_of_validate {m : Module} (hv : m.validate = []) (hx : m.ExactFields) :
    m.StructsSound := by
  obtain ⟨-, hdefs, -⟩ := validate_eq_nil_iff.mp hv
  refine ⟨?_, ?_, ?_⟩
  · intro h d hd
    exact Nat.mod_eq_zero_of_dvd (size_aligned (hdefs d (m.mem_of_def? hd)))
  · intro h d hd hb
    have hs := (List.append_eq_nil_iff.mp (hdefs d (m.mem_of_def? hd))).2
    rw [hb] at hs
    cases hs
  · intro h d fields hd hb
    have hs := structSound_of_validate hv hx hd hb
    rwa [UInt32.ofNat_toNat] at hs

theorem structSound_of_mem {m : Module} (hv : m.validate = []) (hx : m.ExactFields) {d : TypeDef}
    (hd : d ∈ m.defs) {fields : List Field} (hb : d.body = .struct fields) :
    (∃ h, StructSound m h d.size fields) ∧ d.size.toNat % 4 = 0 := by
  obtain ⟨i, hi⟩ := List.getElem?_of_mem hd
  constructor
  · exact ⟨_, structSound_of_validate hv hx hi hb⟩
  · exact Nat.mod_eq_zero_of_dvd (size_aligned (defErrors_eq_nil hv hd))

theorem sound_of_validate {m : Module} (hv : m.validate = []) (hx : m.ExactEnds) {i : Nat}
    {d : TypeDef} (hd : m.defs[i]? = some d) : d.body.Sound m (UInt32.ofNat i) d.size := by
  obtain ⟨-, hdefs, hearlier⟩ := validate_eq_nil_iff.mp hv
  have hmem := List.mem_of_getElem? hd
  have hs := (List.append_eq_nil_iff.mp (hdefs d hmem)).2
  cases hb : d.body with
  | struct fields => exact structSound_of_validate hv hx.exactFields hd hb
  | union variants =>
    rw [hb] at hs
    exact unionSound_of_errors hb (fun v hv offset t hp => hx.payload hmem hb hv hp) hs
      (hearlier i d hd)
  | missing =>
    rw [hb] at hs
    cases hs

theorem wellFormed_of_validate {m : Module} (hv : m.validate = []) (hx : m.ExactEnds) :
    m.WellFormed := by
  refine ⟨(validate_eq_nil_iff.mp hv).1, ?_, ?_⟩
  · exact (structsSound_of_validate hv hx.exactFields).aligned
  · intro h d hd
    have hs := sound_of_validate hv hx hd
    rwa [UInt32.ofNat_toNat] at hs

end Validation

namespace Module.StructsSound

variable {m : Module} (hm : m.StructsSound)
include hm

theorem struct {h : Handle} {d : TypeDef} (hd : m.def? h = some d) {fields : List Field}
    (hb : d.body = .struct fields) : StructSound m h d.size fields := hm.sound h d fields hd hb

theorem struct_of_known {t : Handle} (ht : (Ty.inline t).Known m) :
    ∃ e fields, m.def? t = some e ∧ e.body = .struct fields ∧ m.sizeOf (.inline t) = e.size := by
  obtain ⟨e, he, hu⟩ := ht
  cases hb : e.body with
  | struct fields => exact ⟨e, fields, he, hb, by simp [Module.sizeOf, he]⟩
  | union variants => simp [TypeDef.isUnion, hb] at hu
  | missing => exact absurd hb (hm.present t e he)

theorem inline_target {h : Handle} {d : TypeDef} (hd : m.def? h = some d) {fields : List Field}
    (hb : d.body = .struct fields) {f : Field} (hf : f ∈ fields) {t : Handle}
    (ht : f.ty = .inline t) :
    ∃ e inner, m.def? t = some e ∧ e.body = .struct inner ∧ f.size = e.size ∧ t < h ∧
      f.offset.toNat % 4 = 0 := by
  have hs := hm.struct hd hb
  have hp := hs.placed f hf
  have hk := hp.known
  have hsize := hp.size_eq
  have ha := hp.aligned
  rw [ht] at hk hsize ha
  obtain ⟨e, inner, he, hbe, hse⟩ := hm.struct_of_known hk
  exact ⟨e, inner, he, hbe, hsize.trans hse, hs.earlier f hf t ht, ha⟩

end Module.StructsSound

namespace Module.WellFormed

variable {m : Module} (hm : m.WellFormed) {h : Handle} {d : TypeDef}
include hm

theorem struct (hd : m.def? h = some d) {fields : List Field} (hb : d.body = .struct fields) :
    StructSound m h d.size fields := by
  have hs := hm.sound h d hd
  rwa [hb] at hs

theorem union (hd : m.def? h = some d) {variants : List Variant} (hb : d.body = .union variants) :
    UnionSound m h d.size variants := by
  have hs := hm.sound h d hd
  rwa [hb] at hs

theorem structs : m.StructsSound where
  aligned := hm.aligned
  present h d hd hb := by
    have hs := hm.sound h d hd
    rw [hb] at hs
    exact hs
  sound _ _ _ hd hb := hm.struct hd hb

omit hm in
instance : Coe m.WellFormed m.StructsSound := ⟨structs⟩

theorem struct_of_known {t : Handle} (ht : (Ty.inline t).Known m) :
    ∃ e fields, m.def? t = some e ∧ e.body = .struct fields ∧ m.sizeOf (.inline t) = e.size :=
  hm.structs.struct_of_known ht

theorem inline_target (hd : m.def? h = some d) {fields : List Field}
    (hb : d.body = .struct fields) {f : Field} (hf : f ∈ fields) {t : Handle}
    (ht : f.ty = .inline t) :
    ∃ e inner, m.def? t = some e ∧ e.body = .struct inner ∧ f.size = e.size ∧ t < h ∧
      f.offset.toNat % 4 = 0 :=
  hm.structs.inline_target hd hb hf ht

end Module.WellFormed

end WordLayout
