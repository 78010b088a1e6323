import Mathlib
import WordLayout.Proofs.Host.Encode

namespace WordLayout.Host

open Word Coverage

section windows

variable {words window window' : Array UInt32} {ix : Nat}

theorem size_replaceWords (h : ix + window.size ≤ words.size) :
    (Buffer.replaceWords words ix window).size = words.size := by
  simp only [Buffer.replaceWords, Array.size_append, Array.size_extract]
  omega

theorem getD_replaceWords (h : ix + window.size ≤ words.size) (j : Nat) :
    (Buffer.replaceWords words ix window).getD j 0 =
      if ix ≤ j ∧ j < ix + window.size then window.getD (j - ix) 0 else words.getD j 0 := by
  have hix : min ix words.size = ix := Nat.min_eq_left (by omega)
  simp only [Buffer.replaceWords, Array.getD_eq_getD_getElem?, Array.getElem?_append,
    Array.getElem?_extract, Array.size_append, Array.size_extract, hix, Nat.sub_zero, Nat.min_self]
  clear hix
  rcases Nat.lt_or_ge j ix with hlt | hge
  · rw [if_pos (by omega), if_pos hlt, if_pos hlt, if_neg (by omega), Nat.zero_add]
  · rcases Nat.lt_or_ge j (ix + window.size) with hlt | hge'
    · rw [if_pos hlt, if_neg (by omega), if_pos ⟨hge, hlt⟩]
    · rw [if_neg (by omega), if_neg (show ¬ (ix ≤ j ∧ j < ix + window.size) by omega)]
      split
      · rw [Nat.add_sub_cancel' hge']
      · rw [Array.getElem?_eq_none (by omega)]

theorem replaceWords_window {i : UInt32} {d : TypeDef}
    (h : i.toNat + (d.size / 4).toNat ≤ words.size) :
    (Buffer.window words i d).size = (d.size / 4).toNat ∧
      Buffer.replaceWords words i.toNat (Buffer.window words i d) = words := by
  have hsize : (Buffer.window words i d).size = (d.size / 4).toNat := by
    simp only [Buffer.window, Array.size_extract]
    omega
  refine ⟨hsize, ?_⟩
  rw [← hsize] at h
  apply words_ext (size_replaceWords h)
  intro j
  rw [getD_replaceWords h]
  split
  · rename_i hj
    simp only [Buffer.window, Array.getD_eq_getD_getElem?, Array.getElem?_extract]
    rw [if_pos (by omega), Nat.add_sub_cancel' hj.1]
  · rfl

theorem replaceWords_set! {i : Nat} (h : ix + window.size ≤ words.size) (hi : i < window.size)
    (w : UInt32) :
    Buffer.replaceWords words ix (window.set! i w) =
      (Buffer.replaceWords words ix window).set! (ix + i) w := by
  have hsize := size_replaceWords h
  have h' : ix + (window.set! i w).size ≤ words.size := by simpa using h
  apply words_ext
  · rw [size_replaceWords h', Array.set!_eq_setIfInBounds, Array.size_setIfInBounds, hsize]
  · intro j
    have hset : (window.set! i w).size = window.size := by simp
    rw [getD_replaceWords h', getD_set! window hi, getD_set! (Buffer.replaceWords words ix window)
      (by omega), getD_replaceWords h, hset]
    split_ifs <;> first | rfl | omega

end windows

def InWindow (d : TypeDef) (a j : Nat) : Prop := a / 4 ≤ j ∧ j < a / 4 + d.size.toNat / 4

section shifting

variable {m : Module} {ty : Ty} {v : Value} {a ix : Nat} {words window window' : Array UInt32}

theorem touches_shift_iff (j : Nat) :
    Touches m ty (a + 4 * ix) j ↔ ix ≤ j ∧ Touches m ty a (j - ix) := by
  constructor
  · rintro ⟨b, hb, rfl⟩
    obtain ⟨b', rfl, hcov⟩ := hb.unshift rfl
    exact ⟨by omega, b', hcov, by omega⟩
  · rintro ⟨hj, b, hb, hbj⟩
    exact ⟨_, hb.shift (4 * ix), by omega⟩

theorem image_shift_iff (ix : Nat) {b : Nat} {x : Bool} :
    Image m ty (a + 4 * ix) v (b + 32 * ix) x ↔ Image m ty a v b x := by
  constructor
  · intro h
    obtain ⟨b', hb, himg⟩ := h.unshift rfl
    rwa [show b = b' by omega]
  · intro h
    have hs := h.shift (4 * ix)
    rwa [show b + 8 * (4 * ix) = b + 32 * ix by omega] at hs

theorem Touches.inWindow (hm : m.StructsSound) {h : Handle} {d : TypeDef} (hd : m.def? h = some d)
    (ha : a % 4 = 0) {j : Nat} (hj : Touches m (.inline h) a j) : InWindow d a j := by
  obtain ⟨c, hc, rfl⟩ := hj
  have hbounds := hc.bounds hm
  have hsize : m.sizeOf (.inline h) = d.size := by simp [Module.sizeOf, hd]
  have hmod := hm.aligned h d hd
  rw [hsize] at hbounds
  constructor <;> omega

theorem Touches.bounds (hm : m.StructsSound) {h : Handle} {d : TypeDef} (hd : m.def? h = some d)
    {count : Nat} {offset : UInt32} (hin : Inside count d.size offset) {j : Nat}
    (hj : Touches m (.inline h) offset.toNat j) : offset.toNat / 4 ≤ j ∧ j < count := by
  obtain ⟨ha, hbound⟩ := hin
  obtain ⟨hlo, hhi⟩ := hj.inWindow hm hd ha
  constructor <;> omega

theorem Stored.replaceWords (h : Stored m ty a v window window')
    (hin : ix + window.size ≤ words.size) (htouch : ∀ j, Touches m ty a j → j < window.size) :
    Stored m ty (a + 4 * ix) v (Buffer.replaceWords words ix window)
      (Buffer.replaceWords words ix window') := by
  have hin' : ix + window'.size ≤ words.size := by rwa [h.size_eq]
  refine ⟨?_, fun j hj i hi => ?_, fun j hj => ?_⟩
  · rw [size_replaceWords hin', size_replaceWords hin]
  · obtain ⟨hge, hj'⟩ := (touches_shift_iff j).mp hj
    have hlt := htouch _ hj'
    rw [getD_replaceWords hin', if_pos ⟨hge, by rw [h.size_eq]; omega⟩, h.bits _ hj' i hi,
      ← image_shift_iff ix, show 32 * (j - ix) + i + 32 * ix = 32 * j + i by omega]
  · rw [getD_replaceWords hin', getD_replaceWords hin, h.size_eq]
    split
    · rename_i hwin
      apply h.kept
      intro hj'
      exact hj ((touches_shift_iff j).mpr ⟨hwin.1, hj'⟩)
    · rfl

end shifting

theorem unionDef_eq_ok {m : Module} {direction : Direction} {h : Handle} {d : TypeDef}
    {variants : List Variant} :
    Buffer.unionDef m direction h = .ok (d, variants) ↔
      m.def? h = some d ∧ d.body = .union variants := by
  unfold Buffer.unionDef
  constructor
  · intro hs
    split at hs
    · cases hs
    · rename_i e he
      split at hs
      · rename_i inner hbe
        obtain ⟨rfl, rfl⟩ := Prod.mk.inj (Except.ok.inj hs)
        exact ⟨he, hbe⟩
      · cases hs
  · rintro ⟨hd, hb⟩
    rw [hd]
    simp only [hb]

theorem lt_depth {b : Buffer} {h : Handle} {d : TypeDef} (hd : b.module.def? h = some d) :
    h.toNat < b.depth := by
  obtain ⟨hlt, -⟩ := List.getElem?_eq_some_iff.mp hd
  have hle : b.module.defs.length ≤ b.module.defs.length * (b.words.size + 1) :=
    Nat.le_mul_of_pos_right _ (Nat.succ_pos _)
  unfold Buffer.depth
  omega

section structs

variable {b b' : Buffer} (hm : b.module.StructsSound) (hw : b.words.size ≤ 2 ^ 30)
  {h : Handle} {d : TypeDef} {fields : List Field} {offset : UInt32} {values : List Value}
include hm hw

theorem readStruct_of_holds (hd : b.module.def? h = some d) (hb : d.body = .struct fields)
    (hin : Inside b.words.size d.size offset) {v : Value}
    (hv : Holds b.module (bitsOf b.words) (.inline h) offset.toNat v) :
    b.readStruct h offset = .ok v :=
  decodeStruct_of_holds hm hw hd hb (lt_depth hd) hin hv

omit hm hw in
theorem window_inside (hin : Inside b.words.size d.size offset) :
    (offset / 4).toNat + (Buffer.window b.words (offset / 4) d).size ≤ b.words.size ∧
      (Buffer.window b.words (offset / 4) d).size = d.size.toNat / 4 ∧
      Buffer.replaceWords b.words (offset / 4).toNat (Buffer.window b.words (offset / 4) d) =
        b.words ∧
      offset.toNat = 4 * (offset / 4).toNat := by
  obtain ⟨ha, hbound⟩ := hin
  have hix := toNat_div_four offset
  have hsize := toNat_div_four d.size
  have hfit : (offset / 4).toNat + (d.size / 4).toNat ≤ b.words.size := by omega
  obtain ⟨hwin, hback⟩ := replaceWords_window hfit
  exact ⟨by omega, by omega, hback, by omega⟩

omit hm hw in
theorem writeStruct_eq_ok_iff :
    b.writeStruct offset h values = .ok b' ↔
      ∃ d fields scratch, b.module.def? h = some d ∧ d.body = .struct fields ∧
        Inside b.words.size d.size offset ∧
        Buffer.encodeStruct b.module [] (Buffer.window b.words (offset / 4) d) 0 h values =
          .ok scratch ∧
        b' = ⟨b.module, Buffer.replaceWords b.words (offset / 4).toNat scratch⟩ := by
  constructor
  · intro he
    obtain ⟨⟨d, fields⟩, hdef, he⟩ := bind_eq_ok_iff.mp he
    obtain ⟨hd, hb⟩ := structDef_eq_ok.mp hdef
    obtain ⟨ix, hbase, he⟩ := bind_eq_ok_iff.mp he
    obtain ⟨hin, rfl⟩ := base_eq_ok.mp hbase
    obtain ⟨scratch, hscratch, he⟩ := bind_eq_ok_iff.mp he
    exact ⟨d, fields, scratch, hd, hb, hin, hscratch, (Except.ok.inj he).symm⟩
  · rintro ⟨d, fields, scratch, hd, hb, hin, hscratch, rfl⟩
    rw [Buffer.writeStruct, structDef_eq_ok.mpr ⟨hd, hb⟩, ok_bind]
    simp only
    rw [base_eq_ok.mpr ⟨hin, rfl⟩, ok_bind, hscratch]
    rfl

omit hw in
theorem encodeWindow_stored (hd : b.module.def? h = some d) (hb : d.body = .struct fields)
    (hin : Inside b.words.size d.size offset) {scratch : Array UInt32}
    (he : Buffer.encodeStruct b.module [] (Buffer.window b.words (offset / 4) d) 0 h values =
      .ok scratch) :
    WellTyped b.module (.inline h) (.struct h values) ∧
      Stored b.module (.inline h) offset.toNat (.struct h values) b.words
        (Buffer.replaceWords b.words (offset / 4).toNat scratch) := by
  obtain ⟨hfit, hsize, hback, hoff⟩ := window_inside hin
  have hlt := d.size.toNat_lt
  have hzero : (0 : UInt32).toNat = 0 := rfl
  have hin0 : Inside (Buffer.window b.words (offset / 4) d).size d.size 0 :=
    ⟨rfl, by rw [hzero, hsize]; omega⟩
  obtain ⟨hwt, hst⟩ := encodeStruct_stored hm hd hb (by omega) hin0 he
  have hbuf := hst.replaceWords hfit fun j hj => (hj.bounds hm hd hin0).2
  rw [hback, hzero, Nat.zero_add, ← hoff] at hbuf
  exact ⟨hwt, hbuf⟩

theorem writeStruct_stored (he : b.writeStruct offset h values = .ok b') :
    ∃ d fields, b.module.def? h = some d ∧ d.body = .struct fields ∧
      Inside b.words.size d.size offset ∧ WellTyped b.module (.inline h) (.struct h values) ∧
      b'.module = b.module ∧ b'.words.size ≤ 2 ^ 30 ∧
      Stored b.module (.inline h) offset.toNat (.struct h values) b.words b'.words := by
  obtain ⟨d, fields, scratch, hd, hb, hin, hscratch, rfl⟩ := writeStruct_eq_ok_iff.mp he
  obtain ⟨hwt, hst⟩ := encodeWindow_stored hm hd hb hin hscratch
  exact ⟨d, fields, hd, hb, hin, hwt, rfl, hst.size_eq.trans_le hw, hst⟩

omit hw in
theorem writeStruct_ok (hd : b.module.def? h = some d) (hb : d.body = .struct fields)
    (hin : Inside b.words.size d.size offset)
    (hv : WellTyped b.module (.inline h) (.struct h values)) :
    ∃ b', b.writeStruct offset h values = .ok b' := by
  obtain ⟨-, hsize, -, -⟩ := window_inside hin
  have hlt := d.size.toNat_lt
  have hin0 : Inside (Buffer.window b.words (offset / 4) d).size d.size 0 :=
    ⟨rfl, by rw [hsize]; exact (Nat.zero_add _).le⟩
  obtain ⟨scratch, hscratch⟩ := encodeStruct_ok hm hd hb [] (by omega) hin0 hv
  exact ⟨_, writeStruct_eq_ok_iff.mpr ⟨d, fields, scratch, hd, hb, hin, hscratch, rfl⟩⟩

theorem exists_writeStruct (hd : b.module.def? h = some d) (hb : d.body = .struct fields)
    (hin : Inside b.words.size d.size offset)
    (hv : WellTyped b.module (.inline h) (.struct h values)) :
    ∃ words, b.writeStruct offset h values = .ok ⟨b.module, words⟩ ∧
      Stored b.module (.inline h) offset.toNat (.struct h values) b.words words := by
  obtain ⟨⟨m, words⟩, hwrite⟩ := writeStruct_ok hm hd hb hin hv
  obtain ⟨-, -, -, -, -, -, hmod, -, hst⟩ := writeStruct_stored hm hw hwrite
  obtain rfl : m = b.module := hmod
  exact ⟨words, hwrite, hst⟩

end structs

section unions

inductive PayloadPlace : Payload → Option (UInt32 × Handle) → Prop
  | empty : PayloadPlace .empty none
  | missing : PayloadPlace .missing none
  | struct (at_ : UInt32) (t : Handle) : PayloadPlace (.struct at_ t) (some (at_, t))

theorem PayloadPlace.unique {p : Payload} {place place' : Option (UInt32 × Handle)}
    (h : PayloadPlace p place) (h' : PayloadPlace p place') : place = place' := by
  cases h <;> cases h' <;> rfl

inductive PayloadStored (m : Module) (a : Nat) (old : Array UInt32) :
    Option (UInt32 × Handle) → Option (Handle × List Value) → Array UInt32 → Prop
  | none {new : Array UInt32} (hnew : new = old) : PayloadStored m a old none none new
  | struct {at_ : UInt32} {t : Handle} {values : List Value} {new : Array UInt32}
      (hv : WellTyped m (.inline t) (.struct t values))
      (hst : Stored m (.inline t) (a + at_.toNat) (.struct t values) old new) :
      PayloadStored m a old (some (at_, t)) (some (t, values)) new

theorem payloadOf_eq_ok {direction : Direction} {d : TypeDef} {variants : List Variant}
    {tag : UInt32} {name : String} {place : Option (UInt32 × Handle)} :
    Buffer.payloadOf direction d variants tag = .ok (name, place) ↔
      ∃ v, variants[tag.toNat]? = some v ∧ v.name = name ∧ PayloadPlace v.payload place := by
  unfold Buffer.payloadOf
  cases hv : variants[tag.toNat]? with
  | none => simp [Buffer.refuse]
  | some v =>
    simp only [Option.some.injEq, exists_eq_left']
    cases hp : v.payload with
    | struct at_ t =>
      simp only [Except.ok.injEq, Prod.mk.injEq, and_congr_right_iff]
      rintro -
      constructor
      · rintro rfl
        exact .struct at_ t
      · rintro ⟨⟩
        rfl
    | unsupported items reason =>
      simp only [Buffer.refuse, reduceCtorEq, false_iff, not_and]
      rintro - ⟨⟩
    | empty =>
      simp only [Except.ok.injEq, Prod.mk.injEq, and_congr_right_iff]
      rintro -
      constructor
      · rintro rfl
        exact .empty
      · rintro ⟨⟩
        rfl
    | missing =>
      simp only [Except.ok.injEq, Prod.mk.injEq, and_congr_right_iff]
      rintro -
      constructor
      · rintro rfl
        exact .missing
      · rintro ⟨⟩
        rfl

theorem checkPayload_eq_ok {m : Module} {path : List String} {target : Option Handle}
    {payload : Option (Handle × List Value)} :
    Buffer.checkPayload m path target payload = .ok () ↔ payload.map (·.1) = target := by
  cases target with
  | none => cases payload <;> simp [Buffer.checkPayload, Buffer.refuse]
  | some t =>
    cases payload with
    | none => simp [Buffer.checkPayload, Buffer.refuse]
    | some p =>
      by_cases hp : p.1 = t <;> simp [Buffer.checkPayload, Buffer.refuse, hp]

theorem PayloadPlace.sound {m : Module} {h : Handle} {size : UInt32} {variants : List Variant}
    {v : Variant} {at_ : UInt32} {t : Handle} (hp : PayloadPlace v.payload (some (at_, t)))
    (hv : v ∈ variants) (hs : UnionSound m h size variants) : PayloadSound m h size at_ t := by
  generalize hpay : v.payload = p at hp
  cases hp with
  | struct => exact hs.payload v hv at_ t hpay

theorem PayloadSound.place {m : Module} (hm : m.WellFormed) {h : Handle} {size at_ : UInt32}
    {t : Handle} (hs : PayloadSound m h size at_ t) {count : Nat} {offset : UInt32}
    (hin : Inside count size offset) :
    ∃ e fields, m.def? t = some e ∧ e.body = .struct fields ∧
      (offset.toNat + at_.toNat) % 4 = 0 ∧
      (offset.toNat + at_.toNat) / 4 + e.size.toNat / 4 ≤ count := by
  obtain ⟨e, fields, he, hb, hsize⟩ := hm.struct_of_known hs.known
  have hstop := hs.stop_le
  have ha := hs.aligned
  have hmod := hm.aligned t e he
  obtain ⟨ho, hbound⟩ := hin
  rw [hsize] at hstop
  exact ⟨e, fields, he, hb, by omega, by omega⟩

theorem PayloadSound.target {m : Module} (hm : m.WellFormed) {h : Handle} {size at_ : UInt32}
    {t : Handle} (hs : PayloadSound m h size at_ t) {count : Nat} (hcount : count ≤ 2 ^ 30)
    {offset : UInt32} (hin : Inside count size offset) :
    ∃ e fields, m.def? t = some e ∧ e.body = .struct fields ∧
      Inside count e.size (offset + at_) ∧ (offset + at_).toNat = offset.toNat + at_.toNat := by
  obtain ⟨e, fields, he, hb, ha, hfit⟩ := PayloadSound.place hm hs hin
  have hpos := hm.structs.size_pos he hb
  have hmod := hm.aligned t e he
  have hadd : (offset + at_).toNat = offset.toNat + at_.toNat := toNat_add_of_lt (by omega)
  exact ⟨e, fields, he, hb, ⟨by omega, by omega⟩, hadd⟩

variable {b b' : Buffer} (hm : b.module.WellFormed) {h : Handle} {d : TypeDef}
  {variants : List Variant} {tag offset : UInt32} {place : Option (UInt32 × Handle)}
  {payload : Option (Handle × List Value)}

theorem storeTag_window (tag : UInt32) (hin : Inside b.words.size d.size offset)
    (hroom : 4 ≤ d.size.toNat) :
    Buffer.storeWord (Buffer.window b.words (offset / 4) d) 0 tag =
        .ok ((Buffer.window b.words (offset / 4) d).set! 0 tag) ∧
      Buffer.replaceWords b.words (offset / 4).toNat
          ((Buffer.window b.words (offset / 4) d).set! 0 tag) =
        b.words.set! (offset.toNat / 4) tag := by
  obtain ⟨hfit, hsize, hback, -⟩ := window_inside hin
  have hpos : 0 < (Buffer.window b.words (offset / 4) d).size := by omega
  constructor
  · exact if_pos hpos
  · rw [replaceWords_set! hfit hpos, hback, Nat.add_zero, toNat_div_four]

theorem payload_inside_window (tag : UInt32) (hm : b.module.WellFormed)
    (hin : Inside b.words.size d.size offset) {at_ : UInt32} {t : Handle}
    (hs : PayloadSound b.module h d.size at_ t) :
    ∃ e fields, b.module.def? t = some e ∧ e.body = .struct fields ∧
      Inside ((Buffer.window b.words (offset / 4) d).set! 0 tag).size e.size at_ := by
  obtain ⟨-, hsize, -, -⟩ := window_inside hin
  have hlt := d.size.toNat_lt
  have hzero : Inside ((Buffer.window b.words (offset / 4) d).set! 0 tag).size d.size 0 := by
    refine ⟨rfl, ?_⟩
    simp [hsize]
  obtain ⟨e, fields, he, hb, hine, -⟩ := PayloadSound.target hm hs (by simp; omega) hzero
  rw [UInt32.zero_add] at hine
  exact ⟨e, fields, he, hb, hine⟩

theorem encodePayload_stored (hm : b.module.WellFormed)
    (hin : Inside b.words.size d.size offset) (hroom : 4 ≤ d.size.toNat) {at_ : UInt32}
    {t : Handle} (hs : PayloadSound b.module h d.size at_ t) {path : List String}
    {values : List Value} {scratch : Array UInt32}
    (he : Buffer.encodeStruct b.module path ((Buffer.window b.words (offset / 4) d).set! 0 tag) at_
      t values = .ok scratch) :
    PayloadStored b.module offset.toNat (b.words.set! (offset.toNat / 4) tag) (some (at_, t))
      (some (t, values)) (Buffer.replaceWords b.words (offset / 4).toNat scratch) := by
  obtain ⟨e, fields, hd, hb, hine⟩ := payload_inside_window tag hm hin hs
  obtain ⟨hfit, hsize, -, hoff⟩ := window_inside hin
  have hset : ((Buffer.window b.words (offset / 4) d).set! 0 tag).size =
      (Buffer.window b.words (offset / 4) d).size := by simp
  have hlt := d.size.toNat_lt
  obtain ⟨hwt, hst⟩ := encodeStruct_stored hm hd hb (by omega) hine he
  rw [← hset] at hfit
  have hbuf := hst.replaceWords hfit fun j hj => (hj.bounds hm hd hine).2
  rw [(storeTag_window tag hin hroom).2, Nat.add_comm, ← hoff] at hbuf
  exact .struct hwt hbuf

include hm

theorem writeVariant_stored (he : b.writeVariant h tag offset payload = .ok b') :
    ∃ d variants v place, b.module.def? h = some d ∧ d.body = .union variants ∧
      Inside b.words.size d.size offset ∧ variants[tag.toNat]? = some v ∧
      PayloadPlace v.payload place ∧ b'.module = b.module ∧
      PayloadStored b.module offset.toNat (b.words.set! (offset.toNat / 4) tag) place payload
        b'.words := by
  obtain ⟨⟨d, variants⟩, hdef, he⟩ := bind_eq_ok_iff.mp he
  obtain ⟨hd, hb⟩ := unionDef_eq_ok.mp hdef
  obtain ⟨ix, hbase, he⟩ := bind_eq_ok_iff.mp he
  obtain ⟨hin, rfl⟩ := base_eq_ok.mp hbase
  obtain ⟨⟨name, place⟩, hpay, he⟩ := bind_eq_ok_iff.mp he
  obtain ⟨v, hv, -, hplace⟩ := payloadOf_eq_ok.mp hpay
  obtain ⟨⟨⟩, hcheck, he⟩ := bind_eq_ok_iff.mp he
  have htarget := checkPayload_eq_ok.mp hcheck
  have hs := hm.union hd hb
  obtain ⟨hstore, hback⟩ := storeTag_window tag hin hs.room
  rw [hstore, ok_bind] at he
  refine ⟨d, variants, v, place, hd, hb, hin, hv, hplace, ?_⟩
  cases place with
  | none =>
    cases payload with
    | some p => simp at htarget
    | none =>
      obtain rfl := Except.ok.inj he
      exact ⟨rfl, .none hback⟩
  | some place =>
    obtain ⟨at_, t⟩ := place
    cases payload with
    | none => simp at htarget
    | some p =>
      obtain ⟨given, values⟩ := p
      obtain rfl : given = t := by simpa using htarget
      obtain ⟨scratch, hscratch, he⟩ := bind_eq_ok_iff.mp he
      obtain rfl := Except.ok.inj he
      have hps := hplace.sound (List.mem_of_getElem? hv) hs
      exact ⟨rfl, encodePayload_stored hm hin hs.room hps hscratch⟩

theorem writeVariant_ok (hd : b.module.def? h = some d) (hb : d.body = .union variants)
    (hin : Inside b.words.size d.size offset) {v : Variant} (hv : variants[tag.toNat]? = some v)
    (hplace : PayloadPlace v.payload place)
    (hty : payload.map (·.1) = place.map (·.2))
    (hwt : ∀ t values, payload = some (t, values) →
      WellTyped b.module (.inline t) (.struct t values)) :
    ∃ b', b.writeVariant h tag offset payload = .ok b' := by
  have hs := hm.union hd hb
  obtain ⟨hstore, -⟩ := storeTag_window tag hin hs.room
  have hpay : Buffer.payloadOf .write d variants tag = .ok (v.name, place) :=
    payloadOf_eq_ok.mpr ⟨v, hv, rfl, hplace⟩
  rw [Buffer.writeVariant, unionDef_eq_ok.mpr ⟨hd, hb⟩, ok_bind]
  simp only
  rw [base_eq_ok.mpr ⟨hin, rfl⟩, ok_bind, hpay, ok_bind]
  simp only
  rw [checkPayload_eq_ok.mpr hty, ok_bind, hstore, ok_bind]
  cases place with
  | none => exact ⟨_, rfl⟩
  | some place =>
    obtain ⟨at_, t⟩ := place
    cases payload with
    | none => simp at hty
    | some p =>
      obtain ⟨given, values⟩ := p
      obtain rfl : given = t := by simpa using hty
      have hps := hplace.sound (List.mem_of_getElem? hv) hs
      obtain ⟨e, fields, he, hbe, hine⟩ := payload_inside_window tag hm hin hps
      obtain ⟨-, hsize, -, -⟩ := window_inside hin
      have hlt := d.size.toNat_lt
      obtain ⟨scratch, hscratch⟩ := encodeStruct_ok hm he hbe [d.name, v.name] (by simp; omega) hine
        (hwt given values rfl)
      simp only [hscratch, ok_bind]
      exact ⟨_, rfl⟩

theorem exists_writeVariant (hd : b.module.def? h = some d) (hb : d.body = .union variants)
    (hin : Inside b.words.size d.size offset) {v : Variant} (hv : variants[tag.toNat]? = some v)
    (hplace : PayloadPlace v.payload place) (hty : payload.map (·.1) = place.map (·.2))
    (hwt : ∀ t values, payload = some (t, values) →
      WellTyped b.module (.inline t) (.struct t values)) :
    ∃ words, b.writeVariant h tag offset payload = .ok ⟨b.module, words⟩ ∧
      PayloadStored b.module offset.toNat (b.words.set! (offset.toNat / 4) tag) place payload
        words := by
  obtain ⟨⟨m, words⟩, hwrite⟩ := writeVariant_ok hm hd hb hin hv hplace hty hwt
  obtain ⟨d', variants', v', place', hd', hb', -, hv', hplace', hmod, hst⟩ :=
    writeVariant_stored hm hwrite
  obtain rfl : m = b.module := hmod
  obtain rfl := Option.some.inj (hd.symm.trans hd')
  obtain rfl := Body.union.inj (hb.symm.trans hb')
  obtain rfl := Option.some.inj (hv.symm.trans hv')
  obtain rfl := hplace.unique hplace'
  exact ⟨words, hwrite, hst⟩

end unions

section reading

variable {b : Buffer} (hm : b.module.WellFormed) (hw : b.words.size ≤ 2 ^ 30) {h : Handle}
  {d : TypeDef} {variants : List Variant} {v : Variant} {tag offset : UInt32}
  {place : Option (UInt32 × Handle)}
  (hd : b.module.def? h = some d) (hb : d.body = .union variants)
  (hin : Inside b.words.size d.size offset)
include hm hw hd hb hin

omit hw in
theorem wordAt_tag :
    Buffer.wordAt b.words (offset / 4) = .ok (b.words.getD (offset.toNat / 4) 0) := by
  have hroom := (hm.union hd hb).room
  obtain ⟨ha, hbound⟩ := hin
  apply wordAt_eq_ok
  rw [toNat_div_four, getElem?_eq_getD (by omega)]

omit hw in
theorem tag_eq (htag : b.words.getD (offset.toNat / 4) 0 = tag) : b.tag h offset = .ok tag := by
  rw [Buffer.tag, unionDef_eq_ok.mpr ⟨hd, hb⟩, ok_bind]
  simp only
  rw [base_eq_ok.mpr ⟨hin, rfl⟩, ok_bind, wordAt_tag hm hd hb hin, htag]

theorem decodePayload {path : List String} {at_ : UInt32} {t : Handle}
    (hv : v ∈ variants) (hp : PayloadPlace v.payload (some (at_, t))) {u : Value}
    (hu : Holds b.module (bitsOf b.words) (.inline t) (offset.toNat + at_.toNat) u) :
    Buffer.decodeStruct b.module b.words b.depth path t (offset + at_) = .ok u := by
  have hps := hp.sound hv (hm.union hd hb)
  obtain ⟨e, fields, he, hbe, hine, hadd⟩ := PayloadSound.target hm hps hw hin
  rw [← hadd] at hu
  exact decodeStruct_of_holds hm hw he hbe (lt_depth he) hine hu

theorem readVariant_of_holds {at_ : UInt32} {t : Handle} (hv : variants[tag.toNat]? = some v)
    (hp : PayloadPlace v.payload (some (at_, t))) {u : Value}
    (hu : Holds b.module (bitsOf b.words) (.inline t) (offset.toNat + at_.toNat) u) :
    b.readVariant h tag offset = .ok u := by
  have hpay : Buffer.payloadOf .read d variants tag = .ok (v.name, some (at_, t)) :=
    payloadOf_eq_ok.mpr ⟨v, hv, rfl, hp⟩
  rw [Buffer.readVariant, unionDef_eq_ok.mpr ⟨hd, hb⟩, ok_bind]
  simp only
  rw [base_eq_ok.mpr ⟨hin, rfl⟩, ok_bind, hpay, ok_bind]
  exact decodePayload hm hw hd hb hin (List.mem_of_getElem? hv) hp hu

omit hw in
theorem readUnion_eq (htag : b.words.getD (offset.toNat / 4) 0 = tag)
    (hv : variants[tag.toNat]? = some v) (hp : PayloadPlace v.payload place) :
    b.readUnion h offset =
      match place with
      | some (at_, t) =>
        Buffer.decodeStruct b.module b.words b.depth [d.name, v.name] t (offset + at_) >>=
          fun payload => .ok { tag, payload := some payload }
      | none => .ok { tag, payload := none } := by
  have hpay : Buffer.payloadOf .read d variants tag = .ok (v.name, place) :=
    payloadOf_eq_ok.mpr ⟨v, hv, rfl, hp⟩
  rw [Buffer.readUnion, unionDef_eq_ok.mpr ⟨hd, hb⟩, ok_bind]
  simp only
  rw [base_eq_ok.mpr ⟨hin, rfl⟩, ok_bind, wordAt_tag hm hd hb hin, ok_bind, htag, hpay, ok_bind]
  cases place <;> rfl

end reading

end WordLayout.Host
