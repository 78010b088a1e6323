import Mathlib
import WordLayout.Proofs.Host.RoundTrip

namespace WordLayout.Host

open Word Coverage Validation

namespace InPlace

def writeStruct (offset : UInt32) (h : Handle) (values : List Value) :
    EStateM Fault Buffer Unit := do
  let b ← get
  let (d, _) ← ofExcept (Buffer.structDef b.module .write [] h)
  let ix ← ofExcept (Buffer.base b.words.size .write d offset)
  let scratch ← ofExcept (Buffer.encodeStruct b.module [] (Buffer.window b.words ix d) 0 h values)
  modify fun b => { b with words := Buffer.replaceWords b.words ix.toNat scratch }

def writeVariant (h : Handle) (tag offset : UInt32) (payload : Option (Handle × List Value)) :
    EStateM Fault Buffer Unit := do
  let b ← get
  let (d, variants) ← ofExcept (Buffer.unionDef b.module .write h)
  let ix ← ofExcept (Buffer.base b.words.size .write d offset)
  let (name, place) ← ofExcept (Buffer.payloadOf .write d variants tag)
  let path := [d.name, name]
  ofExcept (Buffer.checkPayload b.module path (place.map (·.2)) payload)
  let scratch ← ofExcept (Buffer.storeWord (Buffer.window b.words ix d) 0 tag)
  let scratch ←
    match place, payload with
    | some (at_, _), some (given, fields) =>
      ofExcept (Buffer.encodeStruct b.module path scratch at_ given fields)
    | _, _ => pure scratch
  modify fun b => { b with words := Buffer.replaceWords b.words ix.toNat scratch }

def settle (b : Buffer) : Except Fault Buffer → EStateM.Result Fault Buffer Unit
  | .ok b' => .ok () b'
  | .error f => .error f b

theorem run_ofExcept_bind {α : Type} (x : Except Fault α) (k : α → EStateM Fault Buffer Unit)
    (next : α → Except Fault Buffer) (b : Buffer)
    (hk : ∀ a, (k a).run b = settle b (next a)) :
    (ofExcept x >>= k).run b = settle b (x >>= next) := by
  cases x with
  | ok a => exact hk a
  | error f => rfl

theorem run_get_bind (k : Buffer → EStateM Fault Buffer Unit) (b : Buffer) :
    (get >>= k).run b = (k b).run b := rfl

theorem run_writeStruct (b : Buffer) (offset : UInt32) (h : Handle) (values : List Value) :
    (writeStruct offset h values).run b = settle b (b.writeStruct offset h values) := by
  rw [writeStruct, run_get_bind, Buffer.writeStruct]
  apply run_ofExcept_bind
  rintro ⟨d, fields⟩
  apply run_ofExcept_bind
  intro ix
  apply run_ofExcept_bind
  intro scratch
  rfl

theorem run_writeVariant (b : Buffer) (h : Handle) (tag offset : UInt32)
    (payload : Option (Handle × List Value)) :
    (writeVariant h tag offset payload).run b =
      settle b (b.writeVariant h tag offset payload) := by
  rw [writeVariant, run_get_bind, Buffer.writeVariant]
  apply run_ofExcept_bind
  rintro ⟨d, variants⟩
  apply run_ofExcept_bind
  intro ix
  apply run_ofExcept_bind
  rintro ⟨name, place⟩
  apply run_ofExcept_bind
  rintro ⟨⟩
  apply run_ofExcept_bind
  intro scratch
  cases place with
  | none => rfl
  | some place =>
    cases payload with
    | none => rfl
    | some p =>
      apply run_ofExcept_bind
      intro scratch'
      rfl

end InPlace

/-- The words of the struct `h`, of definition `d`, at a byte address before and after it is
written there: words of padding are kept, and padding next to a scalar is cleared. -/
structure Repacked (m : Module) (h : Handle) (d : TypeDef) (a : Nat) (old new : Array UInt32) :
    Prop where
  kept : ∀ j, InWindow d a j → ¬ Touches m (.inline h) a j → new[j]? = old[j]?
  cleared : ∀ c, InWindow d a (c / 32) → Touches m (.inline h) a (c / 32) →
    ¬ Covers m (.inline h) a c → bitsOf new c = false

section stored

variable {m : Module} {ty : Ty} {a : Nat} {v : Value} {old new : Array UInt32}

theorem getElem?_eq_of_getD {j : Nat} (hs : new.size = old.size)
    (hj : new.getD j 0 = old.getD j 0) : new[j]? = old[j]? := by
  rcases Nat.lt_or_ge j old.size with hlt | hge
  · rw [getElem?_eq_getD hlt, getElem?_eq_getD (hs ▸ hlt), hj]
  · rw [Array.getElem?_eq_none hge, Array.getElem?_eq_none (hs ▸ hge)]

theorem Stored.getElem?_kept (hst : Stored m ty a v old new) {j : Nat} (hj : ¬ Touches m ty a j) :
    new[j]? = old[j]? :=
  getElem?_eq_of_getD hst.size_eq (hst.kept j hj)

theorem Stored.cleared (hst : Stored m ty a v old new) {c : Nat} (hc : Touches m ty a (c / 32))
    (hn : ¬ Covers m ty a c) : bitsOf new c = false := by
  rw [bitsOf, ← Bool.not_eq_true, hst.bits _ hc _ (Nat.mod_lt _ (by decide)), Nat.div_add_mod]
  intro himg
  exact hn himg.covers

theorem Stored.repacked {h : Handle} {d : TypeDef} (hst : Stored m (.inline h) a v old new) :
    Repacked m h d a old new :=
  ⟨fun _ _ hj => hst.getElem?_kept hj, fun _ _ hc hn => hst.cleared hc hn⟩

theorem Stored.outside (hm : m.WellFormed) {h : Handle} {d : TypeDef} (hd : m.def? h = some d)
    (ha : a % 4 = 0) (hst : Stored m (.inline h) a v old new) {j : Nat} (hj : ¬ InWindow d a j) :
    new[j]? = old[j]? := by
  apply hst.getElem?_kept
  intro htouch
  exact hj (htouch.inWindow hm hd ha)

end stored

section frames

structure StructFrame (offset : UInt32) (h : Handle) (b b' : Buffer) : Prop where
  module_eq : b'.module = b.module
  size_eq : b'.words.size = b.words.size
  words : ∃ d, b.module.def? h = some d ∧
    (∀ j, ¬ InWindow d offset.toNat j → b'.words[j]? = b.words[j]?) ∧
    Repacked b.module h d offset.toNat b.words b'.words

structure VariantFrame (h : Handle) (tag offset : UInt32) (payload : Option (Handle × List Value))
    (b b' : Buffer) : Prop where
  module_eq : b'.module = b.module
  size_eq : b'.words.size = b.words.size
  tag_eq : b'.words[offset.toNat / 4]? = some tag
  words_of_empty : payload = none → ∀ j, j ≠ offset.toNat / 4 → b'.words[j]? = b.words[j]?
  words_of_struct : ∀ t values, payload = some (t, values) → ∃ d variants v at_ e,
    b.module.def? h = some d ∧ d.body = .union variants ∧ variants[tag.toNat]? = some v ∧
    v.payload = .struct at_ t ∧ b.module.def? t = some e ∧
    (∀ j, j ≠ offset.toNat / 4 → ¬ InWindow e (offset.toNat + at_.toNat) j →
      b'.words[j]? = b.words[j]?) ∧
    Repacked b.module t e (offset.toNat + at_.toNat) b.words b'.words

variable {b b' : Buffer} (hm : b.module.WellFormed) {h : Handle} {offset : UInt32}
include hm

theorem writeStruct_frame {values : List Value} (he : b.writeStruct offset h values = .ok b') :
    StructFrame offset h b b' := by
  obtain ⟨d, fields, scratch, hd, hb, hin, hscratch, rfl⟩ := writeStruct_eq_ok_iff.mp he
  obtain ⟨-, hst⟩ := encodeWindow_stored hm hd hb hin hscratch
  exact ⟨rfl, hst.size_eq, d, hd, fun j hj => hst.outside hm hd hin.1 hj, hst.repacked⟩

theorem writeVariant_frame {tag : UInt32} {payload : Option (Handle × List Value)}
    (he : b.writeVariant h tag offset payload = .ok b') :
    VariantFrame h tag offset payload b b' := by
  obtain ⟨d, variants, v, place, hd, hb, hin, hv, hplace, hmod, hst⟩ := writeVariant_stored hm he
  have hs := hm.union hd hb
  have hlt : offset.toNat / 4 < b.words.size := by
    have hroom := hs.room
    obtain ⟨-, hbound⟩ := hin
    omega
  have hsize : (b.words.set! (offset.toNat / 4) tag).size = b.words.size := by simp
  have htag : (b.words.set! (offset.toNat / 4) tag)[offset.toNat / 4]? = some tag := by
    simp [hlt]
  have hrest : ∀ j, j ≠ offset.toNat / 4 →
      (b.words.set! (offset.toNat / 4) tag)[j]? = b.words[j]? := by
    intro j hj
    simp [Ne.symm hj]
  cases hst with
  | none hnew =>
    rw [← hnew] at hsize htag hrest
    refine ⟨hmod, hsize, htag, fun _ => hrest, ?_⟩
    intro t values hp
    cases hp
  | @struct at_ t values new hwt hst =>
    have hps := hplace.sound (List.mem_of_getElem? hv) hs
    obtain ⟨e, -, hte, -, -⟩ := hm.struct_of_known hps.known
    have halign : (offset.toNat + at_.toNat) % 4 = 0 := by
      have ha := hps.aligned
      have ho := hin.1
      omega
    -- The payload starts behind the tag, so that the tag's word is no word of the payload.
    have hne : ∀ j, InWindow e (offset.toNat + at_.toNat) j → j ≠ offset.toNat / 4 := by
      intro j hj heq
      have hover := hps.over_tag
      obtain ⟨hlo, -⟩ := hj
      omega
    refine ⟨hmod, hst.size_eq.trans hsize, ?_, ?_, ?_⟩
    · rw [hst.outside hm hte halign fun hj => hne _ hj rfl, htag]
    · intro hp
      cases hp
    · rintro _ _ ⟨⟩
      have hpay : v.payload = .struct at_ t := by
        generalize hp : v.payload = p at hplace
        cases hplace
        rfl
      refine ⟨d, variants, v, at_, e, hd, hb, hv, hpay, hte, ?_, ?_, ?_⟩
      · intro j hj hout
        rw [hst.outside hm hte halign hout, hrest j hj]
      · intro j hin' hj
        rw [hst.getElem?_kept hj, hrest j (hne j hin')]
      · intro c _ hc hn
        exact hst.cleared hc hn

end frames

/-- A failed write changes nothing, and a successful one changes only the words of its value. -/
theorem writes_keep_the_rest {b : Buffer} (hv : b.module.validate = [])
    (hx : b.module.ExactEnds) :
    (∀ (offset : UInt32) (h : Handle) (values : List Value),
      (∀ f, b.writeStruct offset h values = .error f →
        (InPlace.writeStruct offset h values).run b = .error f b) ∧
      ∀ b', b.writeStruct offset h values = .ok b' →
        (InPlace.writeStruct offset h values).run b = .ok () b' ∧ StructFrame offset h b b') ∧
    (∀ (h : Handle) (tag offset : UInt32) (payload : Option (Handle × List Value)),
      (∀ f, b.writeVariant h tag offset payload = .error f →
        (InPlace.writeVariant h tag offset payload).run b = .error f b) ∧
      ∀ b', b.writeVariant h tag offset payload = .ok b' →
        (InPlace.writeVariant h tag offset payload).run b = .ok () b' ∧
          VariantFrame h tag offset payload b b') := by
  have hm := wellFormed_of_validate hv hx
  constructor
  · intro offset h values
    have hrun := InPlace.run_writeStruct b offset h values
    constructor
    · intro f he
      rw [hrun, he, InPlace.settle]
    · intro b' he
      rw [hrun, he, InPlace.settle]
      exact ⟨rfl, writeStruct_frame hm he⟩
  · intro h tag offset payload
    have hrun := InPlace.run_writeVariant b h tag offset payload
    constructor
    · intro f he
      rw [hrun, he, InPlace.settle]
    · intro b' he
      rw [hrun, he, InPlace.settle]
      exact ⟨rfl, writeVariant_frame hm he⟩

theorem writes_keep_the_rest_sample :
    sampleModule.validate = [] ∧ sampleModule.ExactEnds ∧
      StructFrame 4 1 ⟨sampleModule, Array.replicate 8 0xFFFFFFFF⟩ ⟨sampleModule, sampleWords⟩ ∧
      (InPlace.writeStruct 4 1 sampleFields).run ⟨sampleModule, Array.replicate 8 0xFFFFFFFF⟩ =
        .ok () ⟨sampleModule, sampleWords⟩ ∧
      VariantFrame 2 1 8 (some (0, samplePacked)) ⟨sampleModule, Array.replicate 8 0xFFFFFFFF⟩
        ⟨sampleModule, #[0xFFFFFFFF, 0xFFFFFFFF, 1, 0x020100FB, 40, 0xFFFFFFFF, 0xFFFFFFFF,
          0xFFFFFFFF]⟩ ∧
      ∃ f, (InPlace.writeVariant 2 1 8 (some (0, [.i8 (-5), .u16 513, .u32 40]))).run
        ⟨sampleModule, Array.replicate 8 0xFFFFFFFF⟩ =
          .error f ⟨sampleModule, Array.replicate 8 0xFFFFFFFF⟩ := by
  have hx : sampleModule.ExactEnds := by decide
  obtain ⟨hstruct, hvariant⟩ := writes_keep_the_rest
    (b := ⟨sampleModule, Array.replicate 8 0xFFFFFFFF⟩) sampleModule_accepted hx
  obtain ⟨hrun, hframe⟩ := (hstruct 4 1 sampleFields).2 ⟨sampleModule, sampleWords⟩ (by cbv)
  have hpacked := (hvariant 2 1 8 (some (0, samplePacked))).2 ⟨sampleModule,
    #[0xFFFFFFFF, 0xFFFFFFFF, 1, 0x020100FB, 40, 0xFFFFFFFF, 0xFFFFFFFF, 0xFFFFFFFF]⟩ (by cbv)
  have hfailed := (hvariant 2 1 8 (some (0, [.i8 (-5), .u16 513, .u32 40]))).1
    (.refused ⟨.write, .wrongType "ref" "uint32", ["U", "some", "P", "r"]⟩) (by cbv)
  exact ⟨sampleModule_accepted, hx, hframe, hrun, hpacked.2, _, hfailed⟩

end WordLayout.Host
