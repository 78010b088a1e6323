import Mathlib
import WordLayout.Host.Buffer
import WordLayout.Proofs.Host.Memory
import WordLayout.Proofs.Sequence

namespace WordLayout.Host

open Word Coverage

section holds

variable {m : Module} {mem : Nat → Bool} {t : Handle} {d : TypeDef} {fields : List Field}
  {values : List Value} {a : Nat}

theorem Holds.field (h : Holds m mem (.inline t) a (.struct t values)) (hd : m.def? t = some d)
    (hb : d.body = .struct fields) {i : Nat} {f : Field} {v : Value} (hf : fields[i]? = some f)
    (hv : values[i]? = some v) : Holds m mem f.ty (a + f.offset.toNat) v := by
  obtain ⟨hw, hi⟩ := h
  exact ⟨(hw.members hd hb).2 i f v hf hv, fun b x hx => hi b x (.struct hd hb hf hv hx)⟩

theorem Holds.struct (hd : m.def? t = some d) (hb : d.body = .struct fields)
    (hn : values.length = fields.length)
    (h : ∀ (i : Nat) (f : Field) (v : Value), fields[i]? = some f → values[i]? = some v →
      Holds m mem f.ty (a + f.offset.toNat) v) :
    Holds m mem (.inline t) a (.struct t values) := by
  refine ⟨.struct hd hb hn fun i f v hf hv => (h i f v hf hv).1, ?_⟩
  intro b x hx
  obtain ⟨i, f, v, hf, hv, hx⟩ := (image_struct_iff hd hb).mp hx
  exact (h i f v hf hv).2 b x hx

theorem holds_leaf_iff {ty : Ty} {k : ScalarKind} {n : Nat} (hl : ty.leaf? = some (k, n))
    (hn : 0 < n) {v : Value} :
    Holds m mem ty a v ↔ ∀ lane < n, ∃ x, lane? ty v lane = some x ∧
      ∀ i < 8 * k.size.toNat, mem (8 * (a + lane * k.size.toNat) + i) = bit x i := by
  constructor
  · rintro ⟨hw, hi⟩ lane hlane
    obtain ⟨x, hx⟩ := Option.isSome_iff_exists.mp ((wellTyped_leaf_iff hl hn).mp hw lane hlane)
    exact ⟨x, hx, fun i hik => hi _ _ (.leaf hl hlane hx hik)⟩
  · intro h
    refine ⟨(wellTyped_leaf_iff hl hn).mpr fun lane hlane => ?_, ?_⟩
    · obtain ⟨x, hx, -⟩ := h lane hlane
      rw [hx]
      rfl
    · intro b x hx
      obtain ⟨lane, i, y, hlane, hy, hik, rfl, rfl⟩ := (image_leaf_iff hl).mp hx
      obtain ⟨z, hz, hbits⟩ := h lane hlane
      obtain rfl := Option.some.inj (hy.symm.trans hz)
      exact hbits i hik

end holds

section existence

theorem exists_word (g : Nat → Bool) : ∃ w : UInt32, ∀ i < 32, bit w i = g i := by
  refine ⟨⟨BitVec.ofFnLE fun i => g i⟩, fun i hi => ?_⟩
  rw [bit, BitVec.getLsbD_ofFnLE, dif_pos hi]

theorem exists_scalar {k : ScalarKind} (hk : k.isKnown = true) (g : Nat → Bool) :
    ∃ v x, Value.bits? k v = some x ∧ ∀ i < 8 * k.size.toNat, g i = bit x i := by
  obtain ⟨w, hw⟩ := exists_word g
  obtain ⟨x, hx, hbits⟩ := Value.bits?_ofBits hk w
  refine ⟨Value.ofBits k w, x, hx, fun i hi => ?_⟩
  have h4 := k.size_le_four
  rw [hbits i hi, hw i (by omega)]

theorem exists_holds_leaf (m : Module) (mem : Nat → Bool) {ty : Ty} {k : ScalarKind} {n : Nat}
    (hl : ty.leaf? = some (k, n)) (hk : ty.Known m) (a : Nat) : ∃ v, Holds m mem ty a v := by
  cases ty with
  | scalar k' =>
    obtain ⟨v, x, hx, hbits⟩ := exists_scalar hk fun i => mem (8 * a + i)
    refine ⟨v, (holds_leaf_iff (k := k') (n := 1) rfl Nat.one_pos).mpr fun lane hlane => ?_⟩
    obtain rfl : lane = 0 := by omega
    exact ⟨x, hx, fun i hi => by rw [Nat.zero_mul, Nat.add_zero, hbits i hi]⟩
  | vector k' lanes =>
    have hscalar := fun lane : Nat =>
      exists_scalar hk.1 fun i => mem (8 * (a + lane * k'.size.toNat) + i)
    choose v x hx hbits using hscalar
    refine ⟨.vector ((List.range lanes.toNat).map v),
      (holds_leaf_iff (k := k') (n := lanes.toNat) rfl hk.2.1).mpr fun lane hlane => ?_⟩
    exact ⟨x lane, by simp [lane?, hlane, hx], hbits lane⟩
  | ref t =>
    obtain ⟨w, hw⟩ := exists_word fun i => mem (8 * a + i)
    refine ⟨.ref w, (holds_leaf_iff (k := .u32) (n := 1) rfl Nat.one_pos).mpr fun lane hlane => ?_⟩
    obtain rfl : lane = 0 := by omega
    exact ⟨w, rfl, fun i hi => by rw [Nat.zero_mul, Nat.add_zero, hw i hi]⟩
  | inline t => simp [Ty.leaf?] at hl
  | missing => simp [Ty.leaf?] at hl

theorem exists_holds {m : Module} (hm : m.StructsSound) (mem : Nat → Bool) {h : Handle} {d : TypeDef}
    {fields : List Field} (hd : m.def? h = some d) (hb : d.body = .struct fields) (a : Nat) :
    ∃ values, Holds m mem (.inline h) a (.struct h values) := by
  -- by induction on the handle, as nested structs have smaller ones
  induction hn : h.toNat using Nat.strong_induction_on generalizing h d fields a with
  | _ n ih =>
    have hs := hm.struct hd hb
    have hfield : ∀ f ∈ fields, ∃ v, Holds m mem f.ty (a + f.offset.toNat) v := by
      intro f hf
      have hp := hs.placed f hf
      rcases leaf_or_inline hp with ⟨k, n, hl⟩ | ⟨t, ht⟩
      · exact exists_holds_leaf m mem hl hp.known _
      · obtain ⟨e, inner, he, hbe, -, hlt, -⟩ := hm.inline_target hd hb hf ht
        obtain ⟨values, hv⟩ :=
          ih t.toNat (hn ▸ UInt32.lt_iff_toNat_lt.mp hlt) he hbe (a + f.offset.toNat) rfl
        rw [ht]
        exact ⟨_, hv⟩
    obtain ⟨values, hvalues⟩ := exists_forall₂ fields hfield
    refine ⟨values, .struct hd hb hvalues.length_eq.symm fun i f v hf hv => ?_⟩
    obtain ⟨hi, rfl⟩ := List.getElem?_eq_some_iff.mp hf
    obtain ⟨hi', rfl⟩ := List.getElem?_eq_some_iff.mp hv
    exact hvalues.get hi hi'

end existence

section decoding

variable {m : Module} {words raw : Array UInt32}

theorem getElem?_eq_getD {i : Nat} (hi : i < words.size) :
    words[i]? = some (words.getD i 0) := by
  rw [Array.getD_eq_getD_getElem?, Array.getElem?_eq_getElem hi, Option.getD_some]

theorem wordAt_eq_ok {i : UInt32} {w : UInt32} (h : words[i.toNat]? = some w) :
    Buffer.wordAt words i = .ok w := by
  rw [Buffer.wordAt, h]

theorem decodeScalar_of_bits {k : ScalarKind} {offset w x : UInt32} {v : Value}
    (hw : raw[offset.toNat / 4]? = some w) (ha : offset.toNat % k.size.toNat = 0)
    (hv : v.bits? k = some x)
    (hb : ∀ i < 8 * k.size.toNat, bit w (8 * (offset.toNat % 4) + i) = bit x i) :
    Buffer.decodeScalar raw offset k = .ok v := by
  have hat : Buffer.wordAt raw (Extract.plan offset k).word = .ok w := by
    apply wordAt_eq_ok
    rwa [Extract.plan_word, toNat_div_four]
  have h4 := k.size_le_four
  rw [Buffer.decodeScalar, hat, ok_bind, pure_eq_ok]
  congr 1
  apply Value.ofBits_eq_of_low hv
  intro i hi
  rw [Extract.bit_bits_plan ha w (by omega), if_pos hi, hb i hi]

def Loaded (words raw : Array UInt32) (ix : Nat) (f : Field) : Prop :=
  ∀ (k : ScalarKind) (n lane : Nat), f.ty.leaf? = some (k, n) → lane < n →
    raw[(f.offset.toNat + lane * k.size.toNat) / 4]? =
      some (words.getD (ix + (f.offset.toNat + lane * k.size.toNat) / 4) 0)

def Inside (count : Nat) (size offset : UInt32) : Prop :=
  offset.toNat % 4 = 0 ∧ offset.toNat / 4 + size.toNat / 4 ≤ count

theorem groupWord_inside (hm : m.StructsSound) {h : Handle} {d : TypeDef} {fields : List Field}
    (hd : m.def? h = some d) (hb : d.body = .struct fields) {count : Nat} {offset : UInt32}
    (hin : Inside count d.size offset) {mode : Mode} {g : Group}
    (hg : g ∈ resolve fields d.size mode) (hraw : g.needsRaw = true) :
    (offset / 4 + g.word).toNat = offset.toNat / 4 + g.word.toNat ∧
      offset.toNat / 4 + g.word.toNat < count := by
  have hlt := word_lt_of_needsRaw (hm.struct hd hb) (hm.aligned h d hd) hg hraw
  obtain ⟨-, hbound⟩ := hin
  have hdiv := toNat_div_four offset
  have hoffset := offset.toNat_lt
  have hsize := d.size.toNat_lt
  have hsum : (offset / 4 + g.word).toNat = (offset / 4).toNat + g.word.toNat :=
    toNat_add_of_lt (by omega)
  exact ⟨by omega, by omega⟩

theorem loadRaw_ok (hm : m.StructsSound) {h : Handle} {d : TypeDef} {fields : List Field}
    (hd : m.def? h = some d) (hb : d.body = .struct fields) {offset : UInt32}
    (hin : Inside words.size d.size offset) :
    ∃ raw, Buffer.loadRaw words (offset / 4) (resolve fields d.size .read) = .ok raw ∧
      ∀ f ∈ fields, Loaded words raw (offset.toNat / 4) f := by
  have hload : ∀ g ∈ resolve fields d.size .read, g.needsRaw = true →
      Buffer.wordAt words (offset / 4 + g.word) =
        .ok (words.getD (offset.toNat / 4 + g.word.toNat) 0) := by
    intro g hg hraw
    obtain ⟨hsum, hlt⟩ := groupWord_inside hm hd hb hin hg hraw
    apply wordAt_eq_ok
    rw [hsum, getElem?_eq_getD hlt]
  have hmap : (resolve fields d.size .read).mapM
      (fun g => if g.needsRaw then Buffer.wordAt words (offset / 4 + g.word) else .ok 0) =
      .ok ((resolve fields d.size .read).map fun g =>
        if g.needsRaw then words.getD (offset.toNat / 4 + g.word.toNat) 0 else 0) := by
    rw [mapM_eq_ok_iff, List.forall₂_map_right_iff, List.forall₂_same]
    intro g hg
    by_cases hraw : g.needsRaw = true
    · simp only [hraw, if_true, hload g hg hraw]
    · simp [hraw]
  refine ⟨((resolve fields d.size .read).map fun g =>
    if g.needsRaw then words.getD (offset.toNat / 4 + g.word.toNat) 0 else 0).toArray, ?_, ?_⟩
  · rw [Buffer.loadRaw, hmap]
    rfl
  · intro f hf k n lane hl hlane
    obtain ⟨i, hi⟩ := List.getElem?_of_mem hf
    obtain ⟨g, hg, hraw, hword⟩ :=
      exists_needsRaw_of_leaf (hm.struct hd hb) (hm.aligned h d hd) .read hi hl hlane
    simp [hg, hraw, hword]

def decodeField (m : Module) (words raw : Array UInt32) (fuel : Nat) (path : List String)
    (d : TypeDef) (offset : UInt32) (f : Field) : Except Fault Value :=
  match f.ty with
  | .scalar kind => Buffer.decodeScalar raw f.offset kind
  | .vector kind lanes => do
    pure (.vector (← (List.range lanes.toNat).mapM fun lane =>
      Buffer.decodeScalar raw (f.offset + UInt32.ofNat lane * kind.size) kind))
  | .ref _ => do pure (.ref (← Buffer.wordAt raw (f.offset / 4)))
  | .inline target =>
    Buffer.decodeStruct m words fuel (path ++ [d.name, f.name]) target (offset + f.offset)
  | .missing => .ok .nil

theorem bit_word_eq (words : Array UInt32) (ix : Nat) {k : ScalarKind} {x i : Nat}
    (hx : x % k.size.toNat = 0) (hi : i < 8 * k.size.toNat) :
    bit (words.getD (ix + x / 4) 0) (8 * (x % 4) + i) = bitsOf words (8 * (4 * ix + x) + i) := by
  have hx' : (4 * ix + x) % k.size.toNat = 0 := by
    have h4 : k.size.toNat ∣ 4 * ix := Dvd.dvd.mul_right k.size_dvd_four ix
    rw [Nat.add_mod, Nat.mod_eq_zero_of_dvd h4, hx]
    rfl
  rw [bitsOf_leaf words hx' hi]
  congr 2 <;> omega

theorem decodeField_leaf {fuel : Nat} {path : List String} {d : TypeDef} {offset size : UInt32}
    {f : Field} {k : ScalarKind} {n : Nat} {v : Value} (hp : f.Placed m size)
    (hl : f.ty.leaf? = some (k, n)) (hr : Loaded words raw (offset.toNat / 4) f)
    (ho : offset.toNat % 4 = 0)
    (hv : Holds m (bitsOf words) f.ty (offset.toNat + f.offset.toNat) v) :
    decodeField m words raw fuel path d offset f = .ok v := by
  rw [show offset.toNat = 4 * (offset.toNat / 4) by omega] at hv
  have hlanes := (holds_leaf_iff hl (hp.lanes_pos hl)).mp hv
  have hscalar : ∀ lane < n, ∀ u x, Value.bits? k u = some x → lane? f.ty v lane = some x →
      Buffer.decodeScalar raw (f.offset + UInt32.ofNat lane * k.size) k = .ok u := by
    intro lane hlane u x hu hx
    obtain ⟨y, hy, hmem⟩ := hlanes lane hlane
    obtain rfl := Option.some.inj (hx.symm.trans hy)
    have hoff := hp.laneOffset_toNat hl hlane
    have ha := hp.laneOffset_aligned hl lane
    have hw := hr k n lane hl hlane
    apply decodeScalar_of_bits (by rw [hoff]; exact hw) (by rw [hoff]; exact ha) hu
    intro i hi
    rw [hoff, bit_word_eq words _ ha hi, ← Nat.add_assoc, hmem i hi]
  cases ht : f.ty with
  | scalar k' =>
    obtain ⟨rfl, rfl⟩ : k' = k ∧ 1 = n := by simpa [ht, Ty.leaf?] using hl
    obtain ⟨x, hx, -⟩ := hlanes 0 Nat.one_pos
    have hu : v.bits? k' = some x := by rwa [ht] at hx
    have h0 := hscalar 0 Nat.one_pos v x hu hx
    rw [lane_zero] at h0
    simp only [decodeField, ht, h0]
  | vector k' lanes =>
    obtain ⟨rfl, rfl⟩ : k' = k ∧ lanes.toNat = n := by simpa [ht, Ty.leaf?] using hl
    obtain ⟨hw, -⟩ := hv
    rw [ht] at hw
    cases hw with
    | @vector _ _ vs hlen _ =>
      have hmap : (List.range lanes.toNat).mapM (fun lane =>
          Buffer.decodeScalar raw (f.offset + UInt32.ofNat lane * k'.size) k') = .ok vs := by
        rw [mapM_eq_ok_iff, List.forall₂_iff_get]
        refine ⟨by rw [List.length_range, hlen], fun lane h1 h2 => ?_⟩
        rw [List.get_eq_getElem, List.get_eq_getElem, List.getElem_range]
        obtain ⟨x, hx, -⟩ := hlanes lane (by omega)
        apply hscalar lane (by omega) _ x _ hx
        simpa [ht, lane?, hlen, List.getElem?_eq_getElem h2] using hx
      simp only [decodeField, ht, hmap, ok_bind, pure_eq_ok]
  | ref t =>
    obtain ⟨rfl, rfl⟩ : .u32 = k ∧ 1 = n := by simpa [ht, Ty.leaf?] using hl
    obtain ⟨hw, -⟩ := hv
    rw [ht] at hw
    cases hw with
    | @ref _ r =>
      have h0 := hscalar 0 Nat.one_pos (.u32 r) r rfl (by rw [ht]; rfl)
      rw [lane_zero] at h0
      obtain ⟨w, hw, hval⟩ := bind_eq_ok_iff.mp h0
      rw [Extract.bits_plan_whole rfl] at hval
      obtain rfl : w = r := Value.u32.inj (Except.ok.inj hval)
      rw [Extract.plan_word] at hw
      simp only [decodeField, ht, hw, ok_bind, pure_eq_ok]
  | inline t => simp [ht, Ty.leaf?] at hl
  | missing => simp [ht, Ty.leaf?] at hl

theorem structDef_eq_ok {direction : Direction} {path : List String} {h : Handle} {d : TypeDef}
    {fields : List Field} :
    Buffer.structDef m direction path h = .ok (d, fields) ↔
      m.def? h = some d ∧ d.body = .struct fields := by
  unfold Buffer.structDef
  constructor
  · intro hs
    split at hs
    · cases hs
    · rename_i e he
      split at hs
      · rename_i inner hbe
        obtain ⟨rfl, rfl⟩ := Prod.mk.inj (Except.ok.inj hs)
        exact ⟨he, hbe⟩
      · cases hs
  · rintro ⟨hd, hb⟩
    rw [hd]
    simp only [hb]

theorem base_eq_ok {count : Nat} {direction : Direction} {d : TypeDef} {offset ix : UInt32} :
    Buffer.base count direction d offset = .ok ix ↔
      Inside count d.size offset ∧ ix = offset / 4 := by
  have ha : offset % 4 = 0 ↔ offset.toNat % 4 = 0 := by
    rw [← UInt32.toNat_inj, toNat_mod_four]
    rfl
  rw [Buffer.base, toNat_div_four, toNat_div_four, Inside, ← ha]
  split
  · rename_i hn
    simp [hn, Buffer.refuse]
  · rename_i hn
    split
    · rename_i hout
      simp [hout, Buffer.refuse]
    · rename_i hin
      simp only [Except.ok.injEq]
      constructor
      · rintro rfl
        exact ⟨⟨not_not.mp hn, Nat.le_of_not_lt hin⟩, rfl⟩
      · rintro ⟨-, rfl⟩
        rfl

theorem inside_ofNat {count place : Nat} {size : UInt32} (ha : place % 4 = 0)
    (hfit : place / 4 + size.toNat / 4 ≤ count) : Inside count size (UInt32.ofNat place) := by
  rw [Inside, UInt32.toNat_ofNat']
  exact ⟨by omega, by omega⟩

theorem Inside.inline (hm : m.StructsSound) {h t : Handle} {d e : TypeDef} {fields : List Field}
    (hd : m.def? h = some d) (hb : d.body = .struct fields) {f : Field} (hf : f ∈ fields)
    (ht : f.ty = .inline t) (he : m.def? t = some e) {count : Nat} {offset : UInt32}
    (hin : Inside count d.size offset) : Inside count e.size (offset + f.offset) := by
  obtain ⟨e', inner, he', -, hsize, -, halign⟩ := hm.inline_target hd hb hf ht
  obtain rfl := Option.some.inj (he.symm.trans he')
  have hstop := ((hm.struct hd hb).placed f hf).stop_le
  have ha := hm.aligned h d hd
  have hea := hm.aligned t e he
  obtain ⟨ho, hbound⟩ := hin
  simp only [Field.stop, hsize] at hstop
  have hinside : Inside count e.size (UInt32.ofNat (offset.toNat + f.offset.toNat)) :=
    inside_ofNat (by omega) (by omega)
  rwa [UInt32.ofNat_add, UInt32.ofNat_toNat, UInt32.ofNat_toNat] at hinside

theorem Inside.nested (hm : m.StructsSound) {h t : Handle} {d e : TypeDef} {fields : List Field}
    (hd : m.def? h = some d) (hb : d.body = .struct fields) {f : Field} (hf : f ∈ fields)
    (ht : f.ty = .inline t) (he : m.def? t = some e) {count : Nat} (hcount : count ≤ 2 ^ 30)
    {offset : UInt32} (hin : Inside count d.size offset) :
    Inside count e.size (offset + f.offset) ∧
      (offset + f.offset).toNat = offset.toNat + f.offset.toNat := by
  refine ⟨Inside.inline hm hd hb hf ht he hin, hm.field_offset_toNat hd hb hf ?_⟩
  have ha := hm.aligned h d hd
  obtain ⟨ho, hbound⟩ := hin
  omega

theorem decodeStruct_succ {fuel : Nat} {path : List String} {h : Handle} {offset : UInt32}
    {d : TypeDef} {fields : List Field} (hd : m.def? h = some d) (hb : d.body = .struct fields)
    (hin : Inside words.size d.size offset)
    (hraw : Buffer.loadRaw words (offset / 4) (resolve fields d.size .read) = .ok raw) :
    Buffer.decodeStruct m words (fuel + 1) path h offset =
      fields.mapM (decodeField m words raw fuel path d offset) >>= fun values =>
        .ok (.struct h values) := by
  rw [Buffer.decodeStruct, structDef_eq_ok.mpr ⟨hd, hb⟩, ok_bind]
  simp only
  rw [base_eq_ok.mpr ⟨hin, rfl⟩, ok_bind, hraw, ok_bind]
  rfl

theorem decodeStruct_of_holds (hm : m.StructsSound) (hw : words.size ≤ 2 ^ 30) {fuel : Nat}
    {path : List String} {h : Handle} {d : TypeDef} {fields : List Field} {offset : UInt32}
    {v : Value} (hd : m.def? h = some d) (hb : d.body = .struct fields) (hfuel : h.toNat < fuel)
    (hin : Inside words.size d.size offset)
    (hv : Holds m (bitsOf words) (.inline h) offset.toNat v) :
    Buffer.decodeStruct m words fuel path h offset = .ok v := by
  -- the fuel is above the handle, which decreases with every nesting
  induction fuel generalizing path h d fields offset v with
  | zero => omega
  | succ fuel ih =>
    have hs := hm.struct hd hb
    obtain ⟨raw, hraw, hloaded⟩ := loadRaw_ok hm hd hb hin
    rw [decodeStruct_succ hd hb hin hraw]
    obtain ⟨values, rfl, hn, -⟩ := (wellTyped_struct_iff hd hb).mp hv.1
    have hmap : fields.mapM (decodeField m words raw fuel path d offset) = .ok values := by
      rw [mapM_eq_ok_iff, List.forall₂_iff_get]
      refine ⟨hn.symm, fun i h1 h2 => ?_⟩
      rw [List.get_eq_getElem, List.get_eq_getElem]
      have hfield := hv.field hd hb (List.getElem?_eq_getElem h1) (List.getElem?_eq_getElem h2)
      have hf := List.getElem_mem h1
      have hp := hs.placed _ hf
      rcases leaf_or_inline hp with ⟨k, n, hl⟩ | ⟨t, ht⟩
      · exact decodeField_leaf hp hl (hloaded _ hf) hin.1 hfield
      · obtain ⟨e, inner, he, hbe, -, hlt, -⟩ := hm.inline_target hd hb hf ht
        obtain ⟨hine, hadd⟩ := Inside.nested hm hd hb hf ht he hw hin
        simp only [decodeField, ht]
        refine ih he hbe ?_ hine ?_
        · have := UInt32.lt_iff_toNat_lt.mp hlt
          omega
        · rw [hadd, ← ht]
          exact hfield
    rw [hmap]
    rfl

end decoding

end WordLayout.Host
