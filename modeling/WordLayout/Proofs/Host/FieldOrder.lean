import Mathlib
import WordLayout.Proofs.Host.Canonical
import WordLayout.Proofs.Validation.FieldOrder

namespace WordLayout

def Ty.Before (h : Handle) (ty : Ty) : Prop := ∀ t, ty = .inline t → t < h

theorem Ty.Before.trans {h t : Handle} {ty : Ty} (hty : ty.Before t) (hlt : t < h) :
    ty.Before h := by
  intro u hu
  exact UInt32.lt_trans (hty u hu) hlt

structure SameBefore (m m' : Module) (h : Handle) : Prop where
  left : m.StructsSound
  right : m'.StructsSound
  defs : ∀ t, t < h → m'.def? t = m.def? t

namespace SameBefore

variable {m m' : Module} {h : Handle} (hs : SameBefore m m' h)
include hs

theorem symm : SameBefore m' m h :=
  ⟨hs.right, hs.left, fun t ht => (hs.defs t ht).symm⟩

theorem step {t : Handle} {d : TypeDef} (hd : m.def? t = some d) {fields : List Field}
    (hb : d.body = .struct fields) (hlt : t < h) :
    m'.def? t = some d ∧ ∀ f ∈ fields, f.ty.Before h := by
  constructor
  · rw [hs.defs t hlt, hd]
  · intro f hf
    have hbefore : f.ty.Before t := (hs.left.struct hd hb).earlier f hf
    exact hbefore.trans hlt

end SameBefore

namespace Host

open Coverage Validation

section before

variable {m m' : Module} {h : Handle} (hs : SameBefore m m' h) {ty : Ty} {v : Value} {a b : Nat}
  {x : Bool} (hty : ty.Before h)
include hs hty

theorem WellTyped.moved (hv : WellTyped m ty v) : WellTyped m' ty v := by
  induction hv with
  | scalar hv => exact .scalar hv
  | vector hn hv => exact .vector hn hv
  | ref => exact .ref
  | struct hd hb hn hv ih =>
    obtain ⟨hd', hfields⟩ := hs.step hd hb (hty _ rfl)
    refine .struct hd' hb hn ?_
    intro i f u hf hu
    exact ih i f u hf hu (hfields f (List.mem_of_getElem? hf))

theorem Covers.moved (hc : Covers m ty a b) : Covers m' ty a b := by
  induction hc with
  | leaf hl hn hi => exact .leaf hl hn hi
  | @struct t d fields f a b hd hb hf hc ih =>
    obtain ⟨hd', hfields⟩ := hs.step hd hb (hty _ rfl)
    exact .struct hd' hb hf (ih (hfields f hf))

theorem Image.moved (hi : Image m ty a v b x) : Image m' ty a v b x := by
  induction hi with
  | leaf hl hn hx hi => exact .leaf hl hn hx hi
  | @struct t d fields values f u i a b x hd hb hf hu hx ih =>
    obtain ⟨hd', hfields⟩ := hs.step hd hb (hty _ rfl)
    exact .struct hd' hb hf hu (ih (hfields f (List.mem_of_getElem? hf)))

theorem wellTyped_moved_iff : WellTyped m' ty v ↔ WellTyped m ty v :=
  ⟨.moved hs.symm hty, .moved hs hty⟩

theorem covers_moved_iff : Covers m' ty a b ↔ Covers m ty a b :=
  ⟨.moved hs.symm hty, .moved hs hty⟩

theorem image_moved_iff : Image m' ty a v b x ↔ Image m ty a v b x :=
  ⟨.moved hs.symm hty, .moved hs hty⟩

end before

section rearranged

variable {m m' : Module} {h : Handle} {d d' : TypeDef} {fields : List Field}
  {σ : Equiv.Perm (Fin fields.length)} {values : List Value} {a : Nat}
  {old new : Array UInt32} (hs : SameBefore m m' h) (hd : m.def? h = some d)
  (hb : d.body = .struct fields) (hd' : m'.def? h = some d')
  (hb' : d'.body = .struct (rearrange σ fields))
include hs hd hb hd' hb'

theorem wellTyped_rearrange_iff :
    WellTyped m' (.inline h) (.struct h (rearrange σ values)) ↔
      WellTyped m (.inline h) (.struct h values) := by
  have hbefore : ∀ f ∈ fields, f.ty.Before h := (hs.left.struct hd hb).earlier
  constructor
  · intro hv
    obtain ⟨hlen, hall⟩ := hv.members hd' hb'
    rw [length_rearrange, length_rearrange] at hlen
    refine .struct hd hb hlen ?_
    intro i f u hf hu
    obtain ⟨j, hf', hu'⟩ := (exists_pair_rearrange_iff σ rfl hlen).mpr ⟨i, hf, hu⟩
    exact (wellTyped_moved_iff hs (hbefore f (List.mem_of_getElem? hf))).mp (hall j f u hf' hu')
  · intro hv
    obtain ⟨hlen, hall⟩ := hv.members hd hb
    refine .struct hd' hb' ?_ ?_
    · rw [length_rearrange, length_rearrange, hlen]
    · intro i f u hf hu
      obtain ⟨j, hf', hu'⟩ := (exists_pair_rearrange_iff σ rfl hlen).mp ⟨i, hf, hu⟩
      exact (wellTyped_moved_iff hs (hbefore f (List.mem_of_getElem? hf'))).mpr
        (hall j f u hf' hu')

theorem touches_rearrange_iff (j : Nat) :
    Touches m' (.inline h) a j ↔ Touches m (.inline h) a j := by
  have hbefore : ∀ f ∈ fields, f.ty.Before h := (hs.left.struct hd hb).earlier
  apply exists_congr
  intro b
  apply and_congr_left
  rintro -
  rw [covers_struct_iff hd hb, covers_struct_iff hd' hb']
  apply exists_congr
  intro f
  rw [(rearrange_perm σ fields).mem_iff]
  apply and_congr_right
  intro hf
  exact covers_moved_iff hs (hbefore f hf)

variable (hlen : values.length = fields.length)
include hlen

theorem image_rearrange_iff {b : Nat} {x : Bool} :
    Image m' (.inline h) a (.struct h (rearrange σ values)) b x ↔
      Image m (.inline h) a (.struct h values) b x := by
  have hbefore : ∀ f ∈ fields, f.ty.Before h := (hs.left.struct hd hb).earlier
  rw [image_struct_iff hd hb, image_struct_iff hd' hb']
  constructor
  · rintro ⟨i, f, u, hf, hu, hx⟩
    obtain ⟨j, hf', hu'⟩ := (exists_pair_rearrange_iff σ rfl hlen).mp ⟨i, hf, hu⟩
    rw [image_moved_iff hs (hbefore f (List.mem_of_getElem? hf'))] at hx
    exact ⟨j, f, u, hf', hu', hx⟩
  · rintro ⟨i, f, u, hf, hu, hx⟩
    obtain ⟨j, hf', hu'⟩ := (exists_pair_rearrange_iff σ rfl hlen).mpr ⟨i, hf, hu⟩
    rw [← image_moved_iff hs (hbefore f (List.mem_of_getElem? hf))] at hx
    exact ⟨j, f, u, hf', hu', hx⟩

theorem stored_rearrange_iff :
    Stored m' (.inline h) a (.struct h (rearrange σ values)) old new ↔
      Stored m (.inline h) a (.struct h values) old new := by
  have htouch := touches_rearrange_iff hs hd hb hd' hb' (a := a)
  constructor
  · rintro ⟨hsize, hbits, hkept⟩
    refine ⟨hsize, ?_, ?_⟩
    · intro j hj i hi
      rw [hbits j ((htouch j).mpr hj) i hi, image_rearrange_iff hs hd hb hd' hb' hlen]
    · intro j hj
      exact hkept j (mt (htouch j).mp hj)
  · rintro ⟨hsize, hbits, hkept⟩
    refine ⟨hsize, ?_, ?_⟩
    · intro j hj i hi
      rw [hbits j ((htouch j).mp hj) i hi, image_rearrange_iff hs hd hb hd' hb' hlen]
    · intro j hj
      exact hkept j (mt (htouch j).mpr hj)

omit hlen in
theorem Holds.rearrange {mem : Nat → Bool} (hv : Holds m mem (.inline h) a (.struct h values)) :
    Holds m' mem (.inline h) a (.struct h (rearrange σ values)) := by
  obtain ⟨hwt, himg⟩ := hv
  obtain ⟨hlen, -⟩ := hwt.members hd hb
  constructor
  · exact (wellTyped_rearrange_iff hs hd hb hd' hb').mpr hwt
  · intro b x hx
    exact himg b x ((image_rearrange_iff hs hd hb hd' hb' hlen).mp hx)

end rearranged

theorem writeStruct_ok_iff_stored {b b' : Buffer} (hm : b.module.StructsSound) {h : Handle}
    {d : TypeDef} {fields : List Field} (hd : b.module.def? h = some d)
    (hb : d.body = .struct fields) {offset : UInt32} {values : List Value} :
    b.writeStruct offset h values = .ok b' ↔
      Inside b.words.size d.size offset ∧ WellTyped b.module (.inline h) (.struct h values) ∧
        b'.module = b.module ∧
        Stored b.module (.inline h) offset.toNat (.struct h values) b.words b'.words := by
  have hstored : ∀ c, b.writeStruct offset h values = .ok c →
      Inside b.words.size d.size offset ∧ WellTyped b.module (.inline h) (.struct h values) ∧
        c.module = b.module ∧
        Stored b.module (.inline h) offset.toNat (.struct h values) b.words c.words := by
    intro c hc
    obtain ⟨e, inner, scratch, he, hbe, hin, hscratch, rfl⟩ := writeStruct_eq_ok_iff.mp hc
    obtain rfl := Option.some.inj (hd.symm.trans he)
    obtain ⟨hwt, hst⟩ := encodeWindow_stored hm hd hb hin hscratch
    exact ⟨hin, hwt, rfl, hst⟩
  constructor
  · exact hstored b'
  · rintro ⟨hin, hwt, hmod, hst⟩
    obtain ⟨c, hc⟩ := writeStruct_ok hm hd hb hin hwt
    obtain ⟨-, -, hmod', hst'⟩ := hstored c hc
    have hwords := hst.unique hst'
    have hsame : b' = c := by
      cases b'
      cases c
      simp only at hmod hmod' hwords
      rw [hmod, hmod', hwords]
    rwa [hsame]

def Value.rearrange {n : Nat} (σ : Equiv.Perm (Fin n)) : Value → Value
  | .struct t values => .struct t (WordLayout.rearrange σ values)
  | v => v

structure PackedAlike (m m' : Module) (h : Handle) {n : Nat} (σ : Equiv.Perm (Fin n))
    (words : Array UInt32) (offset : UInt32) : Prop where
  write : ∀ (values : List Value) (b' : Buffer),
    Buffer.writeStruct ⟨m', words⟩ offset h (rearrange σ values) = .ok b' ↔
      ∃ b, Buffer.writeStruct ⟨m, words⟩ offset h values = .ok b ∧ b' = { b with module := m' }
  read : ∀ v' : Value, Buffer.readStruct ⟨m', words⟩ h offset = .ok v' ↔
    ∃ v, Buffer.readStruct ⟨m, words⟩ h offset = .ok v ∧ v' = v.rearrange σ

theorem packedAlike {m m' : Module} {h : Handle} {d d' : TypeDef} {fields : List Field}
    {σ : Equiv.Perm (Fin fields.length)} (hs : SameBefore m m' h) (hd : m.def? h = some d)
    (hb : d.body = .struct fields) (hd' : m'.def? h = some d')
    (hb' : d'.body = .struct (rearrange σ fields)) (hsize : d'.size = d.size)
    {words : Array UInt32} (hw : words.size ≤ 2 ^ 30) (offset : UInt32) :
    PackedAlike m m' h σ words offset where
  write values b' := by
    have hwrite := fun b =>
      @writeStruct_ok_iff_stored ⟨m, words⟩ b hs.left h d fields hd hb offset values
    have hwrite' := @writeStruct_ok_iff_stored ⟨m', words⟩ b' hs.right h d' _ hd' hb' offset
      (rearrange σ values)
    constructor
    · intro hok
      obtain ⟨hin, hwt, hmod, hst⟩ := hwrite'.mp hok
      rw [hsize] at hin
      rw [wellTyped_rearrange_iff hs hd hb hd' hb'] at hwt
      rw [stored_rearrange_iff hs hd hb hd' hb' (hwt.members hd hb).1] at hst
      exact ⟨⟨m, b'.words⟩, (hwrite _).mpr ⟨hin, hwt, rfl, hst⟩,
        congrArg (Buffer.mk · b'.words) hmod⟩
    · rintro ⟨b, hok, rfl⟩
      obtain ⟨hin, hwt, -, hst⟩ := (hwrite b).mp hok
      rw [← hsize] at hin
      rw [← stored_rearrange_iff hs hd hb hd' hb' (hwt.members hd hb).1] at hst
      rw [← wellTyped_rearrange_iff hs hd hb hd' hb'] at hwt
      exact hwrite'.mpr ⟨hin, hwt, rfl, hst⟩
  read v' := by
    have hread : ∀ values, Inside words.size d.size offset →
        Holds m (bitsOf words) (.inline h) offset.toNat (.struct h values) →
        Buffer.readStruct ⟨m', words⟩ h offset = .ok (.struct h (rearrange σ values)) := by
      intro values hin hv
      rw [← hsize] at hin
      exact @readStruct_of_holds ⟨m', words⟩ hs.right hw h d' _ offset hd' hb' hin _
        (hv.rearrange hs hd hb hd' hb')
    constructor
    · intro hok
      obtain ⟨e, inner, he, -, hin⟩ := inside_of_readStruct hok
      obtain rfl := Option.some.inj (hd'.symm.trans he)
      rw [hsize] at hin
      obtain ⟨values, hv⟩ := exists_holds hs.left (bitsOf words) hd hb offset.toNat
      rw [hread values hin hv] at hok
      refine ⟨.struct h values, ?_, (Except.ok.inj hok).symm⟩
      exact @readStruct_of_holds ⟨m, words⟩ hs.left hw h d fields offset hd hb hin _ hv
    · rintro ⟨v, hok, rfl⟩
      obtain ⟨e, inner, he, -, hin⟩ := inside_of_readStruct hok
      obtain rfl := Option.some.inj (hd.symm.trans he)
      obtain ⟨values, rfl, hv⟩ := @holds_of_readStruct ⟨m, words⟩ h offset v hs.left hw hok
      exact hread values hin hv

/-- The fields of a struct can be listed in any order: the module stays accepted, and the struct is
packed alike. -/
theorem field_order_immaterial {m : Module} (hv : m.validate = []) (hx : m.ExactFields) {i : Nat}
    {d : TypeDef} (hd : m.defs[i]? = some d) {fields : List Field} (hb : d.body = .struct fields)
    (σ : Equiv.Perm (Fin fields.length)) :
    (m.withFields i (rearrange σ fields)).validate = [] ∧
      ∀ words : Array UInt32, words.size ≤ 2 ^ 30 → ∀ h : Handle, h.toNat = i → ∀ offset : UInt32,
        PackedAlike m (m.withFields i (rearrange σ fields)) h σ words offset := by
  have hr := Module.reordered_withFields hd hb (rearrange_perm σ fields).symm
  have hv' := validate_reordered hr hv hx
  refine ⟨hv', ?_⟩
  rintro words hw h rfl offset
  have hs : SameBefore m (m.withFields h.toNat (rearrange σ fields)) h := by
    refine ⟨structsSound_of_validate hv hx,
      structsSound_of_validate hv' (exactFields_reordered hr hx), ?_⟩
    intro t ht
    exact Module.defs_withFields_of_ne (UInt32.lt_iff_toNat_lt.mp ht).ne'
  exact packedAlike hs hd hb (Module.defs_withFields_self hd) rfl rfl hw offset

theorem field_order_immaterial_chain :
    chainModule.validate = [] ∧ chainModule.ExactFields ∧
      ∃ fields : List Field, (chainModule.defs[1]?.map (·.body)) = some (.struct fields) ∧
        (chainModule.withFields 1 fields.reverse).validate = [] ∧
        (∃ words', Buffer.writeStruct ⟨chainModule, Array.replicate 6 0⟩ 4 1
            [.struct 0 [.ref 7, .u8 1, .u16 2], .vector [.i16 (-1), .i16 5],
              .struct 0 [.ref 9, .u8 3, .u16 4]] = .ok ⟨chainModule, words'⟩ ∧
          Buffer.writeStruct ⟨chainModule.withFields 1 fields.reverse, Array.replicate 6 0⟩ 4 1
            [.struct 0 [.ref 9, .u8 3, .u16 4], .vector [.i16 (-1), .i16 5],
              .struct 0 [.ref 7, .u8 1, .u16 2]] =
            .ok ⟨chainModule.withFields 1 fields.reverse, words'⟩) := by
  have hv : chainModule.validate = [] := by cbv
  have hx : chainModule.ExactFields := by decide
  obtain ⟨hv', hall⟩ := field_order_immaterial hv hx (i := 1) rfl rfl (Equiv.swap 0 2)
  refine ⟨hv, hx, _, rfl, hv', ?_⟩
  have hpacked := hall (Array.replicate 6 0) (by decide) 1 rfl 4
  obtain ⟨words', hok⟩ : ∃ words', Buffer.writeStruct ⟨chainModule, Array.replicate 6 0⟩ 4 1
      [.struct 0 [.ref 7, .u8 1, .u16 2], .vector [.i16 (-1), .i16 5],
        .struct 0 [.ref 9, .u8 3, .u16 4]] = .ok ⟨chainModule, words'⟩ := ⟨_, by cbv⟩
  exact ⟨words', hok, (hpacked.write _ _).mpr ⟨_, hok, rfl⟩⟩

end Host

end WordLayout
