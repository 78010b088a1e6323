import Mathlib
import WordLayout.Proofs.Host.Buffer

namespace WordLayout.Host

open Word Validation

def unionValue (tag : UInt32) (payload : Option (Handle × List Value)) : UnionValue :=
  { tag, payload := payload.map fun p => .struct p.1 p.2 }

variable {b b' : Buffer} {h : Handle} {tag offset : UInt32}

theorem PayloadStored.tag_kept {m : Module} (hm : m.WellFormed) {d : TypeDef}
    {variants : List Variant} (hd : m.def? h = some d) (hb : d.body = .union variants)
    {v : Variant} {place : Option (UInt32 × Handle)} (hv : v ∈ variants)
    (hp : PayloadPlace v.payload place)
    {old new : Array UInt32} {payload : Option (Handle × List Value)}
    (hold : old.size ≤ 2 ^ 30) (hin : Inside old.size d.size offset)
    (hst : PayloadStored m offset.toNat old place payload new) :
    new.size = old.size ∧ new.getD (offset.toNat / 4) 0 = old.getD (offset.toNat / 4) 0 := by
  cases hst with
  | none hnew => rw [hnew]; exact ⟨rfl, rfl⟩
  | struct hwt hst =>
    have hps := hp.sound hv (hm.union hd hb)
    obtain ⟨e, fields, he, -, hine, hadd⟩ := PayloadSound.target hm hps hold hin
    refine ⟨hst.size_eq, hst.kept _ fun hj => ?_⟩
    rw [← hadd] at hj
    have hbounds := (hj.bounds hm he hine).1
    have hover := hps.over_tag
    omega

section accepted

variable (hm : b.module.WellFormed) (hw : b.words.size ≤ 2 ^ 30)
include hm hw

theorem readStruct_of_writeStruct {values : List Value}
    (he : b.writeStruct offset h values = .ok b') :
    b'.readStruct h offset = .ok (.struct h values) := by
  obtain ⟨d, fields, hd, hb, hin, hwt, hmod, hw', hst⟩ := writeStruct_stored hm hw he
  rw [← hst.size_eq] at hin
  rw [← hmod] at hm hd hwt hst
  exact readStruct_of_holds hm hw' hd hb hin (hst.holds hm hwt)

theorem reads_of_writeVariant {payload : Option (Handle × List Value)}
    (he : b.writeVariant h tag offset payload = .ok b') :
    b'.tag h offset = .ok tag ∧ b'.readUnion h offset = .ok (unionValue tag payload) ∧
      ∀ t values, payload = some (t, values) →
        b'.readVariant h tag offset = .ok (.struct t values) := by
  obtain ⟨d, variants, v, place, hd, hb, hin, hv, hplace, hmod, hst⟩ :=
    writeVariant_stored hm he
  have hroom := (hm.union hd hb).room
  have hlt : offset.toNat / 4 < b.words.size := by
    obtain ⟨-, hbound⟩ := hin
    omega
  have hset : (b.words.set! (offset.toNat / 4) tag).size = b.words.size := by simp
  obtain ⟨hsize, htag⟩ := hst.tag_kept hm hd hb (List.mem_of_getElem? hv) hplace
    (by rwa [hset]) (by rwa [hset])
  rw [getD_set! _ hlt, if_pos rfl] at htag
  rw [← hmod] at hm hd hst
  rw [hset] at hsize
  have hw' : b'.words.size ≤ 2 ^ 30 := by omega
  rw [← hsize] at hin
  refine ⟨tag_eq hm hd hb hin htag, ?_, ?_⟩
  · rw [readUnion_eq hm hd hb hin htag hv hplace]
    cases hst with
    | none => rfl
    | struct hwt hst =>
      simp only
      rw [decodePayload hm hw' hd hb hin (List.mem_of_getElem? hv) hplace (hst.holds hm hwt)]
      rfl
  · rintro t values rfl
    cases hst with
    | struct hwt hst =>
      exact readVariant_of_holds hm hw' hd hb hin hv hplace (hst.holds hm hwt)

end accepted

/-- What a successful write has stored is read back as it was given. -/
theorem reads_what_was_written (hv : b.module.validate = []) (hx : b.module.ExactEnds)
    (hw : b.words.size ≤ 2 ^ 30) :
    (∀ (offset : UInt32) (h : Handle) (values : List Value) (b' : Buffer),
      b.writeStruct offset h values = .ok b' →
        b'.readStruct h offset = .ok (.struct h values)) ∧
    (∀ (h : Handle) (tag offset : UInt32) (payload : Option (Handle × List Value)) (b' : Buffer),
      b.writeVariant h tag offset payload = .ok b' →
        b'.tag h offset = .ok tag ∧
        b'.readUnion h offset = .ok (unionValue tag payload) ∧
        ∀ t values, payload = some (t, values) →
          b'.readVariant h tag offset = .ok (.struct t values)) := by
  have hm := wellFormed_of_validate hv hx
  constructor
  · intro offset h values b' he
    exact readStruct_of_writeStruct hm hw he
  · intro h tag offset payload b' he
    exact reads_of_writeVariant hm hw he

def sampleModule : Module :=
  { name := "heap", writable := true
    defs :=
      [{ name := "P", size := 8
         body := .struct [⟨"a", 0, .scalar .i8, 1⟩, ⟨"b", 2, .scalar .u16, 2⟩,
           ⟨"r", 4, .ref 1, 4⟩] },
        { name := "S", size := 20
          body := .struct [⟨"v", 0, .vector .i16 3, 6⟩, ⟨"p", 8, .inline 0, 8⟩,
            ⟨"f", 16, .scalar .f32, 4⟩] },
        { name := "U", size := 12
          body := .union [⟨"none", .empty⟩, ⟨"some", .struct 4 0⟩] }] }

def samplePacked : List Value := [.i8 (-5), .u16 513, .ref 40]

def sampleFields : List Value :=
  [.vector [.i16 (-1), .i16 2, .i16 (-300)], .struct 0 samplePacked, .f32 0x3FC00000]

def sampleWords : Array UInt32 :=
  #[0xFFFFFFFF, 0x0002FFFF, 0x0000FED4, 0x020100FB, 40, 0x3FC00000, 0xFFFFFFFF, 0xFFFFFFFF]

theorem sampleModule_accepted : sampleModule.validate = [] := by
  cbv

theorem reads_what_was_written_sample :
    sampleModule.validate = [] ∧ sampleModule.ExactEnds ∧
      (∃ b', Buffer.writeStruct ⟨sampleModule, Array.replicate 8 0xFFFFFFFF⟩ 4 1 sampleFields =
        .ok b' ∧ b'.readStruct 1 4 = .ok (.struct 1 sampleFields)) ∧
      ∃ b', Buffer.writeVariant ⟨sampleModule, Array.replicate 8 0xFFFFFFFF⟩ 2 1 8
        (some (0, samplePacked)) = .ok b' ∧
        b'.readUnion 2 8 = .ok (unionValue 1 (some (0, samplePacked))) := by
  have hx : sampleModule.ExactEnds := by decide
  have hread := reads_what_was_written
    (b := ⟨sampleModule, Array.replicate 8 0xFFFFFFFF⟩) sampleModule_accepted hx (by decide)
  have hstruct : Buffer.writeStruct ⟨sampleModule, Array.replicate 8 0xFFFFFFFF⟩ 4 1 sampleFields =
      .ok ⟨sampleModule, sampleWords⟩ := by cbv
  have hunion : Buffer.writeVariant ⟨sampleModule, Array.replicate 8 0xFFFFFFFF⟩ 2 1 8
      (some (0, samplePacked)) =
      .ok ⟨sampleModule, #[0xFFFFFFFF, 0xFFFFFFFF, 1, 0x020100FB, 40, 0xFFFFFFFF, 0xFFFFFFFF,
        0xFFFFFFFF]⟩ := by cbv
  exact ⟨sampleModule_accepted, hx, ⟨_, hstruct, hread.1 4 1 sampleFields _ hstruct⟩,
    ⟨_, hunion, (hread.2 2 1 8 _ _ hunion).2.1⟩⟩

end WordLayout.Host
