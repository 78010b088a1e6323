import Mathlib
import WordLayout.Proofs.Host.Trace
import WordLayout.Proofs.Host.Typing

namespace WordLayout.Host

open Word Coverage Validation

section success

variable {m : Module} (hm : m.StructsSound) {h : Handle} {d : TypeDef} {fields : List Field}
  (hd : m.def? h = some d) (hb : d.body = .struct fields) {offset : UInt32}
include hm hd hb

theorem exists_decodeStruct {words : Array UInt32} {fuel : Nat} (hfuel : h.toNat < fuel)
    (path : List String) (hin : Inside words.size d.size offset) :
    ∃ v, Buffer.decodeStruct m words fuel path h offset = .ok v := by
  -- the fuel is above the handle, which decreases with every nesting
  induction fuel generalizing path h d fields offset with
  | zero => omega
  | succ fuel ih =>
    obtain ⟨raw, hraw, hloaded⟩ := loadRaw_ok hm hd hb hin
    have hfield : ∀ f ∈ fields, ∃ v, decodeField m words raw fuel path d offset f = .ok v := by
      intro f hf
      have hp := (hm.struct hd hb).placed f hf
      rcases leaf_or_inline hp with ⟨k, n, hl⟩ | ⟨t, ht⟩
      · obtain ⟨v, hv⟩ := exists_holds_leaf m (bitsOf words) hl hp.known
          (offset.toNat + f.offset.toNat)
        exact ⟨v, decodeField_leaf hp hl (hloaded f hf) hin.1 hv⟩
      · obtain ⟨e, inner, he, hbe, -, hlt, -⟩ := hm.inline_target hd hb hf ht
        have hsmaller := UInt32.lt_iff_toNat_lt.mp hlt
        obtain ⟨v, hv⟩ := ih he hbe (by omega) (path ++ [d.name, f.name])
          (Inside.inline hm hd hb hf ht he hin)
        exact ⟨v, by simp only [decodeField, ht, hv]⟩
    obtain ⟨values, hvalues⟩ := exists_forall₂ fields hfield
    refine ⟨.struct h values, ?_⟩
    rw [decodeStruct_succ hd hb hin hraw, mapM_eq_ok_iff.mpr hvalues, ok_bind]

omit hm in
theorem decodeStruct_eq_ok {words : Array UInt32} {fuel : Nat} {path : List String} {v : Value}
    (he : Buffer.decodeStruct m words (fuel + 1) path h offset = .ok v) :
    ∃ raw values, Buffer.loadRaw words (offset / 4) (resolve fields d.size .read) = .ok raw ∧
      v = .struct h values ∧
      List.Forall₂ (fun f u => decodeField m words raw fuel path d offset f = .ok u) fields
        values := by
  rw [Buffer.decodeStruct, structDef_eq_ok.mpr ⟨hd, hb⟩, ok_bind] at he
  obtain ⟨ix, hix, he⟩ := bind_eq_ok_iff.mp he
  obtain ⟨hin, rfl⟩ := base_eq_ok.mp hix
  obtain ⟨raw, hraw, he⟩ := bind_eq_ok_iff.mp he
  obtain ⟨values, hvalues, he⟩ := bind_eq_ok_iff.mp he
  exact ⟨raw, values, hraw, (Except.ok.inj he).symm, mapM_eq_ok_iff.mp hvalues⟩

end success

section places

def HoldsOwn (m : Module) (t : Handle) (place j : Nat) : Prop :=
  ∃ d fields f k n, m.def? t = some d ∧ d.body = .struct fields ∧ f ∈ fields ∧
    f.ty.leaf? = some (k, n) ∧ Touches m f.ty (place + f.offset.toNat) j

variable {m : Module} (hm : m.StructsSound) {h t : Handle} {d : TypeDef} {fields : List Field}
  (hd : m.def? h = some d) (hb : d.body = .struct fields) {place n : Nat}

omit hm in
include hd hb in
theorem touches_struct_iff {j : Nat} :
    Touches m (.inline h) place j ↔ ∃ f ∈ fields, Touches m f.ty (place + f.offset.toNat) j := by
  simp only [Touches, covers_struct_iff hd hb]
  constructor
  · rintro ⟨b, ⟨f, hf, hc⟩, rfl⟩
    exact ⟨f, hf, b, hc, rfl⟩
  · rintro ⟨f, hf, b, hc, rfl⟩
    exact ⟨b, ⟨f, hf, hc⟩, rfl⟩

include hm

theorem Nests.bounds (hn : Nests m h t n) (hd : m.def? h = some d) (hb : d.body = .struct fields) :
    ∃ e inner, m.def? t = some e ∧ e.body = .struct inner ∧ n % 4 = 0 ∧
      n + e.size.toNat ≤ d.size.toNat := by
  induction hn generalizing d fields with
  | here h => exact ⟨d, fields, hd, hb, rfl, (Nat.zero_add _).le⟩
  | @field h t u d' fields' f n hd' hb' hf ht hn ih =>
    obtain rfl := Option.some.inj (hd.symm.trans hd')
    obtain rfl := Body.struct.inj (hb.symm.trans hb')
    obtain ⟨e, inner, he, hbe, hsize, -, halign⟩ := hm.inline_target hd hb hf ht
    obtain ⟨e', inner', he', hbe', hmod, hle⟩ := ih he hbe
    have hstop := ((hm.struct hd hb).placed f hf).stop_le
    simp only [Field.stop, hsize] at hstop
    exact ⟨e', inner', he', hbe', by omega, by omega⟩

theorem touches_iff_holdsOwn (hd : m.def? h = some d) (hb : d.body = .struct fields) {j : Nat} :
    Touches m (.inline h) place j ↔ ∃ t n, Nests m h t n ∧ HoldsOwn m t (place + n) j := by
  constructor
  · intro hj
    -- by induction on the handle, as nested structs have smaller ones
    induction hk : h.toNat using Nat.strong_induction_on generalizing h d fields place with
    | _ k ih =>
      obtain ⟨f, hf, hj⟩ := (touches_struct_iff hd hb).mp hj
      rcases leaf_or_inline ((hm.struct hd hb).placed f hf) with ⟨kind, c, hl⟩ | ⟨u, hu⟩
      · exact ⟨h, 0, .here h, d, fields, f, kind, c, hd, hb, hf, hl, hj⟩
      · obtain ⟨e, inner, he, hbe, -, hlt, -⟩ := hm.inline_target hd hb hf hu
        rw [hu] at hj
        obtain ⟨t, n, hn, hown⟩ := ih u.toNat (hk ▸ UInt32.lt_iff_toNat_lt.mp hlt) he hbe hj rfl
        rw [Nat.add_assoc] at hown
        exact ⟨t, _, .field hd hb hf hu hn, hown⟩
  · rintro ⟨t, n, hn, hown⟩
    induction hn generalizing d fields place with
    | here t =>
      obtain ⟨d', fields', f, k, c, hd', hb', hf, -, hj⟩ := hown
      exact (touches_struct_iff hd' hb').mpr ⟨f, hf, hj⟩
    | @field h t u d' fields' f n hd' hb' hf ht hn ih =>
      obtain ⟨e, inner, he, hbe, -⟩ := hm.inline_target hd' hb' hf ht
      rw [← Nat.add_assoc] at hown
      refine (touches_struct_iff hd' hb').mpr ⟨f, hf, ?_⟩
      rw [ht]
      exact ih he hbe hown

include hd hb

theorem holdsOwn_iff (hplace : place % 4 = 0) {j : Nat} :
    HoldsOwn m h place j ↔
      ∃ g ∈ resolve fields d.size .read, g.needsRaw = true ∧ j = place / 4 + g.word.toNat := by
  have hs := hm.struct hd hb
  have ha := hm.aligned h d hd
  constructor
  · rintro ⟨d', fields', f, k, n, hd', hb', hf, hl, b, hc, rfl⟩
    obtain rfl := Option.some.inj (hd.symm.trans hd')
    obtain rfl := Body.struct.inj (hb.symm.trans hb')
    obtain ⟨i, hi⟩ := List.getElem?_of_mem hf
    obtain ⟨lane, bit, hlane, hbit, rfl⟩ := (covers_leaf_iff hl).mp hc
    obtain ⟨g, hg, hraw, hword⟩ := exists_needsRaw_of_leaf hs ha .read hi hl hlane
    refine ⟨g, List.mem_of_getElem? hg, hraw, ?_⟩
    rw [hword, Nat.add_assoc]
    exact leaf_word hplace ((hs.placed f hf).laneOffset_aligned hl lane) hbit
  · rintro ⟨g, hg, hraw, rfl⟩
    obtain ⟨p, hp, hr⟩ := List.any_eq_true.mp hraw
    obtain ⟨hmem, hw⟩ := of_mem_group hg hp
    obtain ⟨i, f, k, n, lane, hi, hl, hlane, rfl⟩ := (mem_pieces_raw_iff hs ha .read).mp ⟨hmem, hr⟩
    have hf := List.mem_of_getElem? hi
    have hp := hs.placed f hf
    have hpos := k.size_pos
    refine ⟨d, fields, f, k, n, hd, hb, hf, hl, _, .leaf (i := 0) hl hlane (by omega), ?_⟩
    rw [hw, Piece.word, toNat_div_four, leafPiece, hp.laneOffset_toNat hl hlane, Nat.add_assoc]
    exact leaf_word hplace (hp.laneOffset_aligned hl lane) (by omega)

end places

/-- What the log of a read says when the exact address of the struct that it reads is `place`. -/
structure Descends (b : Buffer) (h : Handle) (place : Nat) (log : List Event) : Prop where
  entered : ∀ t p a, .enter t p a ∈ log ↔
    ∃ n, Nests b.module h t n ∧ p = place + n ∧ a = UInt32.ofNat p
  exact_iff : ∀ t p a, .enter t p a ∈ log → (a.toNat = p ↔ p < 2 ^ 32)
  exact_of_addressable : b.words.size ≤ 2 ^ 30 → ∀ t p a, .enter t p a ∈ log → a.toNat = p
  accessed : ∀ t p a, .enter t p a ∈ log → ∀ j,
    .access t p j ∈ log ↔ HoldsOwn b.module t p (j + p / 2 ^ 32 * 2 ^ 30)
  touched : ∀ j, Touches b.module (.inline h) place j ↔
    ∃ t p a, .enter t p a ∈ log ∧ HoldsOwn b.module t p j

def ReadsAt {α : Type} (b : Buffer) (h : Handle) (place : Nat) (traced : Traced.Logged α)
    (plain : Except Fault α) : Prop :=
  Traced.Erases traced plain ∧
    ∃ v log, plain = .ok v ∧ traced.run [] = .ok (v, log) ∧ Descends b h place log

section descents

variable {b : Buffer} (hm : b.module.StructsSound) {h : Handle} {d : TypeDef} {fields : List Field}
  (hd : b.module.def? h = some d) (hb : d.body = .struct fields) {place : Nat}
  (hplace : place % 4 = 0) (hin : place / 4 + d.size.toNat / 4 ≤ b.words.size)

include hm hd hb hplace hin in
theorem Nests.inside {t : Handle} {n : Nat} (hn : Nests b.module h t n) :
    ∃ e inner, b.module.def? t = some e ∧ e.body = .struct inner ∧ (place + n) % 4 = 0 ∧
      place + n < 4 * b.words.size := by
  obtain ⟨e, inner, he, hbe, hmod, hle⟩ := hn.bounds hm hd hb
  have hpos := hm.size_pos he hbe
  have ha := hm.aligned h d hd
  exact ⟨e, inner, he, hbe, by omega, by omega⟩

variable {log : List Event}
  (hlog : ∀ e, e ∈ log ↔ ∃ t n, Nests b.module h t n ∧ Visits b.module t (place + n) e)

include hlog in
theorem mem_enter_iff {t : Handle} {p : Nat} {a : UInt32} :
    .enter t p a ∈ log ↔ ∃ n, Nests b.module h t n ∧ p = place + n ∧ a = UInt32.ofNat p := by
  rw [hlog]
  constructor
  · rintro ⟨t', n, hn, he⟩
    cases he
    exact ⟨n, hn, rfl, rfl⟩
  · rintro ⟨n, hn, rfl, rfl⟩
    exact ⟨t, n, hn, .enter⟩

include hlog in
theorem mem_access_iff {t : Handle} {n : Nat} (hn : Nests b.module h t n) {e : TypeDef}
    {inner : List Field} (he : b.module.def? t = some e) (hbe : e.body = .struct inner) {j : Nat} :
    .access t (place + n) j ∈ log ↔ ∃ g ∈ resolve inner e.size .read, g.needsRaw = true ∧
      j = (UInt32.ofNat (place + n) / 4 + g.word).toNat := by
  rw [hlog]
  constructor
  · rintro ⟨t', n', -, hvisit⟩
    generalize hp : place + n = p at hvisit
    generalize hp' : place + n' = p' at hvisit
    cases hvisit with
    | access hd' hb' hg hraw =>
      obtain rfl := Option.some.inj (he.symm.trans hd')
      obtain rfl := Body.struct.inj (hbe.symm.trans hb')
      exact ⟨_, hg, hraw, rfl⟩
  · rintro ⟨g, hg, hraw, rfl⟩
    exact ⟨t, n, hn, .access he hbe hg hraw⟩

theorem groupWord_exact {m : Module} (hm : m.StructsSound) {t : Handle} {e : TypeDef}
    {inner : List Field} (he : m.def? t = some e) (hbe : e.body = .struct inner) (p : Nat)
    {g : Group} (hg : g ∈ resolve inner e.size .read) (hraw : g.needsRaw = true) :
    (UInt32.ofNat p / 4 + g.word).toNat + p / 2 ^ 32 * 2 ^ 30 = p / 4 + g.word.toNat := by
  have hlt := word_lt_of_needsRaw (hm.struct he hbe) (hm.aligned t e he) hg hraw
  have hsize := e.size.toNat_lt
  have hdiv := toNat_div_four (UInt32.ofNat p)
  rw [UInt32.toNat_ofNat'] at hdiv
  rw [toNat_add_of_lt (by omega)]
  omega

include hm hd hb hplace hin hlog

theorem descends_of_visits : Descends b h place log where
  entered _ _ _ := mem_enter_iff hlog
  exact_iff t p a he := by
    obtain ⟨n, -, -, rfl⟩ := (mem_enter_iff hlog).mp he
    rw [UInt32.toNat_ofNat', Nat.mod_eq_iff_lt (by decide)]
  exact_of_addressable hw t p a he := by
    obtain ⟨n, hn, rfl, rfl⟩ := (mem_enter_iff hlog).mp he
    obtain ⟨-, -, -, -, -, hlt⟩ := hn.inside hm hd hb hplace hin
    rw [UInt32.toNat_ofNat', Nat.mod_eq_of_lt (by omega)]
  accessed t p a he j := by
    obtain ⟨n, hn, rfl, rfl⟩ := (mem_enter_iff hlog).mp he
    obtain ⟨e, inner, hte, hbe, hmod, -⟩ := hn.inside hm hd hb hplace hin
    rw [mem_access_iff hlog hn hte hbe, holdsOwn_iff hm hte hbe hmod]
    apply exists_congr
    intro g
    apply and_congr_right
    intro hg
    apply and_congr_right
    intro hraw
    have hword := groupWord_exact hm hte hbe (place + n) hg hraw
    omega
  touched j := by
    rw [touches_iff_holdsOwn hm hd hb]
    constructor
    · rintro ⟨t, n, hn, hown⟩
      exact ⟨t, _, _, (mem_enter_iff hlog).mpr ⟨n, hn, rfl, rfl⟩, hown⟩
    · rintro ⟨t, p, a, he, hown⟩
      obtain ⟨n, hn, rfl, -⟩ := (mem_enter_iff hlog).mp he
      exact ⟨t, n, hn, hown⟩

omit hlog in
theorem readsAt {α : Type} {traced : Traced.Logged α} {plain : Except Fault α}
    (herase : Traced.Erases traced plain) (hok : ∃ v, plain = .ok v)
    (hlogs : Traced.Logs traced fun e =>
      ∃ t n, Nests b.module h t n ∧ Visits b.module t (place + n) e) :
    ReadsAt b h place traced plain := by
  obtain ⟨v, hv⟩ := hok
  obtain ⟨log, hrun⟩ := herase.run [] hv
  refine ⟨herase, v, log, hv, hrun, descends_of_visits hm hd hb hplace hin fun e => ?_⟩
  rw [hlogs [] v log hrun e]
  simp

end descents

section operations

variable {b : Buffer} (hm : b.module.WellFormed) {h : Handle} {d : TypeDef} {offset : UInt32}
  (hin : Inside b.words.size d.size offset)
include hm hin

theorem readStruct_readsAt {fields : List Field} (hd : b.module.def? h = some d)
    (hb : d.body = .struct fields) :
    ReadsAt b h offset.toNat (Traced.readStruct b h offset) (b.readStruct h offset) := by
  have hlogs := Traced.decodeStruct_logs b.module b.words b.depth [] h offset.toNat
  rw [UInt32.ofNat_toNat] at hlogs
  exact readsAt hm.structs hd hb hin.1 hin.2 (Traced.readStruct_erases b h offset)
    (exists_decodeStruct hm.structs hd hb (lt_depth hd) [] hin) hlogs

variable {variants : List Variant} (hd : b.module.def? h = some d)
  (hb : d.body = .union variants) {tag at_ : UInt32} {name : String} {t : Handle}
  (hpay : Buffer.payloadOf .read d variants tag = .ok (name, some (at_, t)))
include hd hb hpay

theorem payload_place :
    ∃ e fields, b.module.def? t = some e ∧ e.body = .struct fields ∧
      (offset.toNat + at_.toNat) % 4 = 0 ∧
      (offset.toNat + at_.toNat) / 4 + e.size.toNat / 4 ≤ b.words.size ∧
      ∀ path, ∃ v,
        Buffer.decodeStruct b.module b.words b.depth path t (offset + at_) = .ok v := by
  obtain ⟨v, hv, -, hp⟩ := payloadOf_eq_ok.mp hpay
  have hs := hp.sound (List.mem_of_getElem? hv) (hm.union hd hb)
  obtain ⟨e, fields, he, hbe, hplace, hfit⟩ := PayloadSound.place hm hs hin
  have hinside := inside_ofNat hplace hfit
  rw [UInt32.ofNat_add, UInt32.ofNat_toNat, UInt32.ofNat_toNat] at hinside
  exact ⟨e, fields, he, hbe, hplace, hfit, fun path =>
    exists_decodeStruct hm.structs he hbe (lt_depth he) path hinside⟩

omit hm hin hd hb hpay in
theorem decodePayload_logs (path : List String) :
    Traced.Logs (Traced.decodeStruct b.module b.words b.depth path t (offset + at_)
        (offset.toNat + at_.toNat))
      fun e => ∃ u n, Nests b.module t u n ∧
        Visits b.module u (offset.toNat + at_.toNat + n) e := by
  have hlogs := Traced.decodeStruct_logs b.module b.words b.depth path t
    (offset.toNat + at_.toNat)
  rwa [UInt32.ofNat_add, UInt32.ofNat_toNat, UInt32.ofNat_toNat] at hlogs

theorem readVariant_readsAt :
    ReadsAt b t (offset.toNat + at_.toNat) (Traced.readVariant b h tag offset)
      (b.readVariant h tag offset) := by
  obtain ⟨e, fields, he, hbe, hplace, hfit, hok⟩ := payload_place hm hin hd hb hpay
  have hdef : Buffer.unionDef b.module .read h = .ok (d, variants) := unionDef_eq_ok.mpr ⟨hd, hb⟩
  have hbase : Buffer.base b.words.size .read d offset = .ok (offset / 4) :=
    base_eq_ok.mpr ⟨hin, rfl⟩
  refine readsAt hm.structs he hbe hplace hfit (Traced.readVariant_erases b h tag offset) ?_ ?_
  · simp only [Buffer.readVariant, hdef, hbase, hpay, ok_bind]
    exact hok [d.name, name]
  · simp only [Traced.readVariant, hdef, hbase, hpay, Traced.lift_ok_bind]
    exact decodePayload_logs [d.name, name]

theorem readUnion_readsAt (htag : Buffer.wordAt b.words (offset / 4) = .ok tag) :
    ReadsAt b t (offset.toNat + at_.toNat) (Traced.readUnion b h offset)
      (b.readUnion h offset) := by
  obtain ⟨e, fields, he, hbe, hplace, hfit, hok⟩ := payload_place hm hin hd hb hpay
  have hdef : Buffer.unionDef b.module .read h = .ok (d, variants) := unionDef_eq_ok.mpr ⟨hd, hb⟩
  have hbase : Buffer.base b.words.size .read d offset = .ok (offset / 4) :=
    base_eq_ok.mpr ⟨hin, rfl⟩
  refine readsAt hm.structs he hbe hplace hfit (Traced.readUnion_erases b h offset) ?_ ?_
  · obtain ⟨u, hu⟩ := hok [d.name, name]
    simp only [Buffer.readUnion, hdef, hbase, htag, hpay, ok_bind, hu]
    exact ⟨_, rfl⟩
  · simp only [Traced.readUnion, hdef, hbase, htag, hpay, Traced.lift_ok_bind]
    exact ((decodePayload_logs [d.name, name]).bind fun payload => .pure _).congr fun e => by
      rw [or_false]

omit hin in
theorem writeVariant_payload_stored {values : List Value} {b' : Buffer}
    (he : b.writeVariant h tag offset (some (t, values)) = .ok b') :
    Stored b.module (.inline t) (offset.toNat + at_.toNat) (.struct t values)
      (b.words.set! (offset.toNat / 4) tag) b'.words := by
  obtain ⟨v, hv, -, hp⟩ := payloadOf_eq_ok.mp hpay
  obtain ⟨d', variants', v', place, hd', hb', -, hv', hp', -, hst⟩ := writeVariant_stored hm he
  obtain rfl := Option.some.inj (hd.symm.trans hd')
  obtain rfl := Body.union.inj (hb.symm.trans hb')
  obtain rfl := Option.some.inj (hv.symm.trans hv')
  obtain rfl := hp.unique hp'
  cases hst with
  | struct hwt hst => exact hst

end operations

/-- Every read that is let through gives a result and computes the exact address of each struct
that starts below `2 ^ 32`, for which it takes the words that a write stores. That is every struct
in a buffer of at most `2 ^ 30` words. -/
theorem nested_addresses_exact_iff {b : Buffer} (hv : b.module.validate = [])
    (hx : b.module.ExactEnds) :
    (∀ h offset d fields ix, Buffer.structDef b.module .read [] h = .ok (d, fields) →
      Buffer.base b.words.size .read d offset = .ok ix →
      ReadsAt b h offset.toNat (Traced.readStruct b h offset) (b.readStruct h offset) ∧
      ∀ values b', b.writeStruct offset h values = .ok b' →
        Stored b.module (.inline h) offset.toNat (.struct h values) b.words b'.words) ∧
    ∀ h tag offset d variants ix name at_ t,
      Buffer.unionDef b.module .read h = .ok (d, variants) →
      Buffer.base b.words.size .read d offset = .ok ix →
      Buffer.payloadOf .read d variants tag = .ok (name, some (at_, t)) →
      ReadsAt b t (offset.toNat + at_.toNat) (Traced.readVariant b h tag offset)
        (b.readVariant h tag offset) ∧
      (Buffer.wordAt b.words ix = .ok tag →
        ReadsAt b t (offset.toNat + at_.toNat) (Traced.readUnion b h offset)
          (b.readUnion h offset)) ∧
      ∀ values b', b.writeVariant h tag offset (some (t, values)) = .ok b' →
        Stored b.module (.inline t) (offset.toNat + at_.toNat) (.struct t values)
          (b.words.set! (offset.toNat / 4) tag) b'.words := by
  have hm := wellFormed_of_validate hv hx
  constructor
  · intro h offset d fields ix hdef hbase
    obtain ⟨hd, hb⟩ := structDef_eq_ok.mp hdef
    obtain ⟨hin, -⟩ := base_eq_ok.mp hbase
    refine ⟨readStruct_readsAt hm hin hd hb, fun values b' he => ?_⟩
    obtain ⟨d', fields', scratch, hd', hb', hin', hscratch, rfl⟩ := writeStruct_eq_ok_iff.mp he
    exact (encodeWindow_stored hm hd' hb' hin' hscratch).2
  · intro h tag offset d variants ix name at_ t hdef hbase hpay
    obtain ⟨hd, hb⟩ := unionDef_eq_ok.mp hdef
    obtain ⟨hin, rfl⟩ := base_eq_ok.mp hbase
    exact ⟨readVariant_readsAt hm hin hd hb hpay, readUnion_readsAt hm hin hd hb hpay,
      fun values b' he => writeVariant_payload_stored hm hd hb hpay he⟩

theorem nested_addresses_exact_iff_sample :
    sampleModule.validate = [] ∧ sampleModule.ExactEnds ∧
      ReadsAt ⟨sampleModule, sampleWords⟩ 1 4 (Traced.readStruct ⟨sampleModule, sampleWords⟩ 1 4)
        (Buffer.readStruct ⟨sampleModule, sampleWords⟩ 1 4) ∧
      ReadsAt ⟨sampleModule, sampleWords⟩ 0 12
        (Traced.readVariant ⟨sampleModule, sampleWords⟩ 2 1 8)
        (Buffer.readVariant ⟨sampleModule, sampleWords⟩ 2 1 8) := by
  have hx : sampleModule.ExactEnds := by decide
  obtain ⟨hstruct, hvariant⟩ := nested_addresses_exact_iff (b := ⟨sampleModule, sampleWords⟩)
    sampleModule_accepted hx
  exact ⟨sampleModule_accepted, hx, (hstruct 1 4 _ _ _ rfl rfl).1,
    (hvariant 2 1 8 _ _ _ _ _ _ rfl rfl rfl).1⟩

def longBuffer : Buffer := ⟨sampleModule, Array.replicate (2 ^ 30 + 4) 0⟩

theorem longBuffer_inside : Inside longBuffer.words.size 20 0xFFFFFFFC := by
  simp only [longBuffer, Array.size_replicate]
  exact ⟨by decide, by decide⟩

theorem readStruct_ne {words : Array UInt32} (hin : Inside words.size 20 0xFFFFFFFC)
    (hword : words.getD 1 0 = 0) :
    Buffer.readStruct ⟨sampleModule, words⟩ 1 0xFFFFFFFC ≠ .ok (.struct 1 sampleFields) := by
  have hm := (wellFormed_of_validate sampleModule_accepted (by decide)).structs
  intro hread
  obtain ⟨fuel, hfuel⟩ : ∃ fuel, Buffer.depth ⟨sampleModule, words⟩ = fuel + 2 :=
    ⟨3 * (words.size + 1) - 1, by
      have hlen : sampleModule.defs.length = 3 := rfl
      simp only [Buffer.depth, hlen]
      omega⟩
  rw [Buffer.readStruct, hfuel] at hread
  obtain ⟨raw, values, -, hvalues, hfields⟩ := decodeStruct_eq_ok rfl rfl hread
  obtain ⟨-, rfl⟩ := Value.struct.inj hvalues
  have hinner := (List.forall₂_cons.mp (List.forall₂_cons.mp hfields).2).1
  obtain ⟨raw, values, hraw, hvalues, hfields⟩ := decodeStruct_eq_ok rfl rfl hinner
  obtain ⟨-, rfl⟩ := Value.struct.inj hvalues
  have hscalar := (List.forall₂_cons.mp hfields).1
  -- the inner struct lies at address 4, so that its first scalar is in word 1
  have hine : Inside words.size 8 (0xFFFFFFFC + 8) :=
    @Inside.inline sampleModule hm 1 0 ⟨"S", 20, _⟩ ⟨"P", 8, _⟩ _ rfl rfl ⟨"p", 8, .inline 0, 8⟩
      (by simp) rfl rfl words.size 0xFFFFFFFC hin
  obtain ⟨raw', hraw', hloaded⟩ :=
    @loadRaw_ok sampleModule words hm 0 ⟨"P", 8, _⟩ _ rfl rfl (0xFFFFFFFC + 8) hine
  obtain rfl := Except.ok.inj (hraw.symm.trans hraw')
  have hzero : raw[0]? = some 0 := by
    rw [← hword]
    exact hloaded ⟨"a", 0, .scalar .i8, 1⟩ (by simp) .i8 1 0 rfl Nat.one_pos
  have hread : Buffer.decodeScalar raw 0 .i8 = .ok (.i8 0) := by
    rw [Buffer.decodeScalar, wordAt_eq_ok hzero]
    rfl
  exact absurd (Value.i8.inj (Except.ok.inj (hread.symm.trans hscalar))) (by decide)

theorem nested_address_wraps :
    longBuffer.module.validate = [] ∧ longBuffer.module.ExactEnds ∧
      longBuffer.words.size = 2 ^ 30 + 4 ∧
      (∃ d fields ix, Buffer.structDef longBuffer.module .read [] 1 = .ok (d, fields) ∧
        Buffer.base longBuffer.words.size .read d 0xFFFFFFFC = .ok ix) ∧
      (∃ v log, (Traced.readStruct longBuffer 1 0xFFFFFFFC).run [] = .ok (v, log) ∧
        .enter 0 (0xFFFFFFFC + 8) 4 ∈ log) ∧
      ∃ b', longBuffer.writeStruct 0xFFFFFFFC 1 sampleFields = .ok b' ∧
        b'.readStruct 1 0xFFFFFFFC ≠ .ok (.struct 1 sampleFields) := by
  have hx : sampleModule.ExactEnds := by decide
  have hm := wellFormed_of_validate sampleModule_accepted hx
  have hin := longBuffer_inside
  refine ⟨sampleModule_accepted, hx, Array.size_replicate,
    ⟨_, _, _, rfl, base_eq_ok.mpr ⟨hin, rfl⟩⟩, ?_, ?_⟩
  · obtain ⟨-, v, log, -, hrun, hlog⟩ :=
      @readStruct_readsAt longBuffer hm 1 ⟨"S", 20, _⟩ 0xFFFFFFFC hin _ rfl rfl
    refine ⟨v, log, hrun, (hlog.entered _ _ _).mpr ⟨8, ?_, rfl, rfl⟩⟩
    exact .field (n := 0) (f := ⟨"p", 8, .inline 0, 8⟩) rfl rfl (by simp) rfl (.here 0)
  · have hfits : WellTyped sampleModule (.inline 1) (.struct 1 sampleFields) :=
      (fits_iff _ _).mp (by cbv)
    obtain ⟨b', hwrite⟩ := @writeStruct_ok longBuffer hm.structs 1 ⟨"S", 20, _⟩ _ 0xFFFFFFFC
      sampleFields rfl rfl hin hfits
    obtain ⟨d, fields, scratch, hd, hb, hin', hscratch, rfl⟩ := writeStruct_eq_ok_iff.mp hwrite
    have hst := (encodeWindow_stored hm.structs hd hb hin' hscratch).2
    refine ⟨_, hwrite, readStruct_ne (by rw [hst.size_eq]; exact hin) ?_⟩
    rw [hst.kept 1 fun htouch => absurd (htouch.bounds hm.structs hd hin').1 (by decide)]
    simp [longBuffer]

end WordLayout.Host
