import Mathlib
import WordLayout.Proofs.Host.Decode

namespace WordLayout.Host

open Word Coverage

def Touches (m : Module) (ty : Ty) (a j : Nat) : Prop := ∃ b, Covers m ty a b ∧ b / 32 = j

/-- Memory before and after a value of a type is stored at a byte address. -/
structure Stored (m : Module) (ty : Ty) (a : Nat) (v : Value) (old new : Array UInt32) :
    Prop where
  size_eq : new.size = old.size
  bits : ∀ j, Touches m ty a j → ∀ i < 32,
    (bit (new.getD j 0) i = true ↔ Image m ty a v (32 * j + i) true)
  kept : ∀ j, ¬ Touches m ty a j → new.getD j 0 = old.getD j 0

section words

theorem getD_set! (words : Array UInt32) {i : Nat} (hi : i < words.size) (w : UInt32) (j : Nat) :
    (words.set! i w).getD j 0 = if i = j then w else words.getD j 0 := by
  simp only [Array.getD_eq_getD_getElem?, Array.set!_eq_setIfInBounds, Array.getElem?_setIfInBounds]
  by_cases hij : i = j
  · subst hij
    simp [hi]
  · simp [hij]

theorem words_ext {x y : Array UInt32} (hs : x.size = y.size)
    (h : ∀ j, x.getD j 0 = y.getD j 0) : x = y := by
  apply Array.ext hs
  intro j h1 h2
  have hj := h j
  rwa [Array.getD_eq_getD_getElem?, Array.getD_eq_getD_getElem?, Array.getElem?_eq_getElem h1,
    Array.getElem?_eq_getElem h2] at hj

end words

section uniqueness

variable {m : Module} {ty : Ty} {a : Nat} {v : Value} {old old' new new' : Array UInt32}

theorem Stored.agree (h : Stored m ty a v old new) (h' : Stored m ty a v old' new') {j : Nat}
    (hj : Touches m ty a j) : new.getD j 0 = new'.getD j 0 := by
  apply eq_of_bit
  intro i hi
  rw [Bool.eq_iff_iff, h.bits j hj i hi, h'.bits j hj i hi]

theorem Stored.unique (h : Stored m ty a v old new) (h' : Stored m ty a v old new') :
    new = new' := by
  apply words_ext (h.size_eq.trans h'.size_eq.symm)
  intro j
  by_cases hj : Touches m ty a j
  · exact h.agree h' hj
  · rw [h.kept j hj, h'.kept j hj]

theorem lane_eq_of_bit_eq {s lane lane' i i' : Nat} (hi : i < 8 * s) (hi' : i' < 8 * s)
    (h : 8 * (a + lane * s) + i = 8 * (a + lane' * s) + i') : lane = lane' ∧ i = i' := by
  have hlane : lane = lane' := by
    rcases Nat.lt_trichotomy lane lane' with hlt | heq | hlt
    · have hmul := Nat.mul_le_mul_right s hlt
      rw [Nat.succ_mul] at hmul
      omega
    · exact heq
    · have hmul := Nat.mul_le_mul_right s hlt
      rw [Nat.succ_mul] at hmul
      omega
  subst hlane
  exact ⟨rfl, by omega⟩

theorem Image.unique (hm : m.StructsSound) {b : Nat} {x y : Bool} (h : Image m ty a v b x)
    (h' : Image m ty a v b y) : x = y := by
  induction h with
  | leaf hl hn hw hi =>
    obtain ⟨lane', i', w', -, hw', hi', hb, rfl⟩ := (image_leaf_iff hl).mp h'
    obtain ⟨rfl, rfl⟩ := lane_eq_of_bit_eq hi hi' hb
    obtain rfl := Option.some.inj (hw.symm.trans hw')
    rfl
  | @struct _ _ _ _ f u i _ _ _ hd hb hf hv hx ih =>
    obtain ⟨i', g, u', hg, hu, hy⟩ := (image_struct_iff hd hb).mp h'
    have hs := hm.struct hd hb
    have hbf := hx.covers.field_bounds hm (hs.placed f (List.mem_of_getElem? hf))
    have hbg := hy.covers.field_bounds hm (hs.placed g (List.mem_of_getElem? hg))
    have hsame : i = i' := by
      by_contra hne
      rcases hs.apart_of_ne hf hg hne with hap | hap <;> omega
    subst hsame
    obtain rfl := Option.some.inj (hf.symm.trans hg)
    obtain rfl := Option.some.inj (hv.symm.trans hu)
    exact ih hy

theorem Stored.holds (h : Stored m ty a v old new) (hm : m.StructsSound) (hv : WellTyped m ty v) :
    Holds m (bitsOf new) ty a v := by
  refine ⟨hv, fun b x hx => ?_⟩
  have hbit := h.bits (b / 32) ⟨b, hx.covers, rfl⟩ (b % 32) (Nat.mod_lt _ (by decide))
  rw [Nat.div_add_mod b 32] at hbit
  cases x with
  | true => exact hbit.mpr hx
  | false =>
    rw [bitsOf, ← Bool.not_eq_true, hbit]
    intro htrue
    cases htrue.unique hm hx

end uniqueness

section groups

/-- What the words of one group contribute when a struct with these fields and values is stored at
a byte address: a word made of scalars, a nested struct, or nothing. -/
inductive GroupStored (m : Module) (fields : List Field) (values : List Value) (a : Nat)
    (g : Group) (old new : Array UInt32) : Prop
  | word {w : UInt32} (hraw : g.needsRaw = true) (hall : ∀ p ∈ g.pieces, p.isRaw = true)
      (hin : a / 4 + g.word.toNat < old.size) (hnew : new = old.set! (a / 4 + g.word.toNat) w)
      (hbits : ∀ i < 32, (bit w i = true ↔
        ∃ (n : Nat) (f : Field) (kc : ScalarKind × Nat) (v : Value), fields[n]? = some f ∧
          values[n]? = some v ∧ f.ty.leaf? = some kc ∧
          Image m f.ty (a + f.offset.toNat) v (32 * (a / 4 + g.word.toNat) + i) true))
  | nested {n : Nat} {f : Field} {t : Handle} {v : Value} (hf : fields[n]? = some f)
      (ht : f.ty = .inline t) (hv : values[n]? = some v) (hp : g.pieces = [nestedPiece n f])
      (hnew : Stored m f.ty (a + f.offset.toNat) v old new)
  | none (hp : g.pieces = []) (hnew : new = old)

def GroupTouches (m : Module) (fields : List Field) (a : Nat) (g : Group) (j : Nat) : Prop :=
  (g.needsRaw = true ∧ j = a / 4 + g.word.toNat) ∨
    ∃ (n : Nat) (f : Field) (t : Handle), fields[n]? = some f ∧ f.ty = .inline t ∧
      nestedPiece n f ∈ g.pieces ∧ Touches m f.ty (a + f.offset.toNat) j

variable {m : Module} {fields : List Field} {values : List Value} {a : Nat} {g : Group}
  {old new : Array UInt32}

theorem GroupStored.size_eq (h : GroupStored m fields values a g old new) :
    new.size = old.size := by
  cases h with
  | word _ _ _ hnew _ => simp [hnew]
  | nested _ _ _ _ hnew => exact hnew.size_eq
  | none _ hnew => rw [hnew]

theorem GroupStored.kept (h : GroupStored m fields values a g old new) {j : Nat}
    (hj : ¬ GroupTouches m fields a g j) : new.getD j 0 = old.getD j 0 := by
  cases h with
  | word hraw _ hin hnew _ =>
    rw [hnew, getD_set! old hin, if_neg]
    intro heq
    exact hj (.inl ⟨hraw, heq.symm⟩)
  | nested hf ht _ hp hnew =>
    apply hnew.kept
    intro htouch
    exact hj (.inr ⟨_, _, _, hf, ht, by simp [hp], htouch⟩)
  | none _ hnew => rw [hnew]

variable (hm : m.StructsSound) {h : Handle} {d : TypeDef} (hd : m.def? h = some d)
  (hb : d.body = .struct fields) (ha : a % 4 = 0)
include hm hd hb ha

theorem field_eq_of_touches {n n' : Nat} {f f' : Field} {t : Handle} (hf : fields[n]? = some f)
    (ht : f.ty = .inline t) (hf' : fields[n']? = some f') {j b : Nat}
    (hj : Touches m f.ty (a + f.offset.toNat) j)
    (hb' : Covers m f'.ty (a + f'.offset.toNat) b) (hbj : b / 32 = j) : n' = n := by
  have hs := hm.struct hd hb
  obtain ⟨c, hc, hcj⟩ := hj
  obtain ⟨e, inner, he, -, hsize, -, halign⟩ :=
    hm.inline_target hd hb (List.mem_of_getElem? hf) ht
  have hmod := hm.aligned t e he
  rw [← hsize] at hmod
  have hbf := hc.field_bounds hm (hs.placed f (List.mem_of_getElem? hf))
  have hbf' := hb'.field_bounds hm (hs.placed f' (List.mem_of_getElem? hf'))
  by_contra hne
  rcases hs.apart_of_ne hf' hf hne with hap | hap <;> simp only [Field.stop] at * <;> omega

omit hm hd hb in
theorem leaf_word {k : ScalarKind} {x i : Nat} (hx : x % k.size.toNat = 0)
    (hi : i < 8 * k.size.toNat) : (8 * (a + x) + i) / 32 = a / 4 + x / 4 := by
  have hfit := k.fits_word hx
  omega

theorem GroupTouches.covers (hg : g ∈ resolve fields d.size .write) {j : Nat}
    (hj : GroupTouches m fields a g j) :
    ∃ (n : Nat) (f : Field) (p : Piece) (b : Nat), fields[n]? = some f ∧ p ∈ g.pieces ∧
      p.field = n ∧ Covers m f.ty (a + f.offset.toNat) b ∧ b / 32 = j := by
  have hs := hm.struct hd hb
  rcases hj with ⟨hraw, rfl⟩ | ⟨n, f, t, hf, ht, hp, b, hb', hbj⟩
  · obtain ⟨p, hp, hr⟩ := List.any_eq_true.mp hraw
    obtain ⟨hmem, hw⟩ := of_mem_group hg hp
    obtain ⟨n, f, k, c, lane, hf, hl, hlane, rfl⟩ :=
      (mem_pieces_raw_iff hs (hm.aligned h d hd) .write).mp ⟨hmem, hr⟩
    have hpl := hs.placed f (List.mem_of_getElem? hf)
    have hpos := k.size_pos
    refine ⟨n, f, _, _, hf, hp, rfl, .leaf (i := 0) hl hlane (by omega), ?_⟩
    rw [hw, Piece.word, toNat_div_four, leafPiece, hpl.laneOffset_toNat hl hlane, Nat.add_assoc]
    exact leaf_word ha (hpl.laneOffset_aligned hl lane) (by omega)
  · exact ⟨n, f, _, b, hf, hp, rfl, hb', hbj⟩

theorem groups_apart : (resolve fields d.size .write).Pairwise fun g g' =>
    ∀ j, GroupTouches m fields a g j → ¬ GroupTouches m fields a g' j := by
  have hs := hm.struct hd hb
  -- a nested struct has its words for itself, so what touches one of them is the same piece
  have hnested : ∀ g ∈ resolve fields d.size .write, ∀ g' ∈ resolve fields d.size .write,
      g.word ≠ g'.word → ∀ j, GroupTouches m fields a g j → ∀ n f t, fields[n]? = some f →
      f.ty = .inline t → nestedPiece n f ∈ g'.pieces → ¬ Touches m f.ty (a + f.offset.toNat) j := by
    intro g hg g' hg' hne j hj n f t hf ht hp' htouch
    obtain ⟨n', f', p, b, hf', hp, rfl, hcov, hbj⟩ := hj.covers hm hd hb ha hg
    obtain rfl := field_eq_of_touches hm hd hb ha hf ht hf' htouch hcov hbj
    obtain ⟨hmem, hw⟩ := of_mem_group hg hp
    rw [eq_nestedPiece_of_field hs (hm.aligned h d hd) hmem hf ht] at hw
    exact hne (hw.trans (of_mem_group hg' hp').2.symm)
  refine (resolve_word_ne fields d.size .write).imp_of_mem fun {g g'} hg hg' hne j hj hj' => ?_
  rcases hj' with ⟨hraw', hw'⟩ | ⟨n', f', t', hf', ht', hp', htouch'⟩
  · rcases hj with ⟨hraw, hw⟩ | ⟨n, f, t, hf, ht, hp, htouch⟩
    · apply hne
      rw [← UInt32.toNat_inj]
      omega
    · exact hnested g' hg' g hg hne.symm j (.inl ⟨hraw', hw'⟩) n f t hf ht hp htouch
  · exact hnested g hg g' hg' hne j hj n' f' t' hf' ht' hp' htouch'

theorem exists_groupTouches {j : Nat} (hj : Touches m (.inline h) a j) :
    ∃ g ∈ resolve fields d.size .write, GroupTouches m fields a g j := by
  have hs := hm.struct hd hb
  obtain ⟨b, hcov, rfl⟩ := hj
  obtain ⟨f, hf, hc⟩ := (covers_struct_iff hd hb).mp hcov
  have hp := hs.placed f hf
  obtain ⟨n, hn⟩ := List.getElem?_of_mem hf
  rcases leaf_or_inline hp with ⟨k, c, hl⟩ | ⟨t, ht⟩
  · obtain ⟨lane, i, hlane, hi, rfl⟩ := (covers_leaf_iff hl).mp hc
    obtain ⟨g, hg, hraw, hword⟩ :=
      exists_needsRaw_of_leaf hs (hm.aligned h d hd) .write hn hl hlane
    refine ⟨g, List.mem_of_getElem? hg, .inl ⟨hraw, ?_⟩⟩
    rw [hword, Nat.add_assoc]
    exact leaf_word ha (hp.laneOffset_aligned hl lane) hi
  · have hmem : nestedPiece n f ∈ pieces .write fields :=
      (mem_pieces_write_iff hs (hm.aligned h d hd)).mpr ⟨n, f, hn, .inr ⟨t, ht, rfl⟩⟩
    obtain ⟨g, hg, -, hpg⟩ := exists_group_of_mem d.size hmem
    exact ⟨g, List.mem_of_getElem? hg, .inr ⟨n, f, t, hn, ht, hpg, b, hc, rfl⟩⟩

theorem GroupStored.bits (hg : g ∈ resolve fields d.size .write)
    (hst : GroupStored m fields values a g old new) {j : Nat}
    (hj : GroupTouches m fields a g j) {i : Nat} (hi : i < 32) :
    bit (new.getD j 0) i = true ↔
      Image m (.inline h) a (.struct h values) (32 * j + i) true := by
  have hdiv : (32 * j + i) / 32 = j := by omega
  cases hst with
  | word hraw hall hin hnew hbits =>
    obtain rfl : j = a / 4 + g.word.toNat := by
      rcases hj with ⟨-, hj⟩ | ⟨n, f, t, -, -, hp, -⟩
      · exact hj
      · cases hall _ hp
    rw [hnew, getD_set! old hin, if_pos rfl, hbits i hi]
    constructor
    · rintro ⟨n, f, kc, v, hf, hv, -, himg⟩
      exact .struct hd hb hf hv himg
    · intro himg
      obtain ⟨n, f, v, hf, hv, himg⟩ := (image_struct_iff hd hb).mp himg
      rcases leaf_or_inline ((hm.struct hd hb).placed f (List.mem_of_getElem? hf)) with
        ⟨k, c, hl⟩ | ⟨t, ht⟩
      · exact ⟨n, f, (k, c), v, hf, hv, hl, himg⟩
      · -- a nested struct would have this word for itself
        obtain ⟨n', f', p, b, hf', hp, rfl, hcov, hbj⟩ := hj.covers hm hd hb ha hg
        obtain rfl := field_eq_of_touches hm hd hb ha hf ht hf' ⟨_, himg.covers, hdiv⟩ hcov hbj
        have hpn := eq_nestedPiece_of_field (hm.struct hd hb) (hm.aligned h d hd)
          (of_mem_group hg hp).1 hf ht
        have hr := hall p hp
        rw [hpn] at hr
        cases hr
  | @nested n f t v hf ht hv hp hnew =>
    have htouch : Touches m f.ty (a + f.offset.toNat) j := by
      rcases hj with ⟨hraw, -⟩ | ⟨n', f', t', hf', ht', hp', htouch⟩
      · simp [Group.needsRaw, hp, nestedPiece, Piece.isRaw] at hraw
      · rw [hp, List.mem_singleton] at hp'
        obtain rfl : n' = n := congrArg Piece.field hp'
        obtain rfl := Option.some.inj (hf.symm.trans hf')
        exact htouch
    rw [hnew.bits j htouch i hi]
    constructor
    · intro himg
      exact .struct hd hb hf hv himg
    · intro himg
      obtain ⟨n', f', v', hf', hv', himg⟩ := (image_struct_iff hd hb).mp himg
      obtain rfl := field_eq_of_touches hm hd hb ha hf ht hf' htouch himg.covers hdiv
      obtain rfl := Option.some.inj (hf.symm.trans hf')
      obtain rfl := Option.some.inj (hv.symm.trans hv')
      exact himg
  | none hp =>
    rcases hj with ⟨hraw, -⟩ | ⟨n', f', t', -, -, hp', -⟩
    · simp [Group.needsRaw, hp] at hraw
    · simp [hp] at hp'

omit hm hd hb ha in
theorem size_eq_of_run {groups : List Group}
    (hrun : Run (GroupStored m fields values a) groups old new) : new.size = old.size := by
  induction hrun with
  | nil => rfl
  | cons hg _ ih => exact ih.trans hg.size_eq

theorem stored_of_run
    (hrun : Run (GroupStored m fields values a) (resolve fields d.size .write) old new) :
    Stored m (.inline h) a (.struct h values) old new := by
  have hframe : ∀ g ∈ resolve fields d.size .write, ∀ s t, GroupStored m fields values a g s t →
      ∀ j, ¬ GroupTouches m fields a g j → t.getD j 0 = s.getD j 0 :=
    fun g _ s t hst j hj => hst.kept hj
  have hdone := hrun.done (fun words j => words.getD j 0) (GroupTouches m fields a)
    (fun g words => ∀ j, GroupTouches m fields a g j → ∀ i < 32,
      (bit (words.getD j 0) i = true ↔
        Image m (.inline h) a (.struct h values) (32 * j + i) true))
    hframe (fun g hg s t hst j hj i hi => hst.bits hm hd hb ha hg hj hi)
    (fun g _ s t hsame hdone j hj i hi => by rw [hsame j hj]; exact hdone j hj i hi)
    (groups_apart hm hd hb ha)
  refine ⟨size_eq_of_run hrun, fun j hj i hi => ?_, fun j hj => ?_⟩
  · obtain ⟨g, hg, hgj⟩ := exists_groupTouches hm hd hb ha hj
    exact hdone g hg j hgj i hi
  · refine hrun.frame (fun words j => words.getD j 0) _ hframe fun g hg hgj => hj ?_
    obtain ⟨n, f, p, b, hf, -, -, hcov, hbj⟩ := hgj.covers hm hd hb ha hg
    exact ⟨b, .struct hd hb (List.mem_of_getElem? hf) hcov, hbj⟩

end groups

section shares

def Share (fields : List Field) (values : List Value) (maskUnsigned : Bool) (p : Piece)
    (x : UInt32) : Prop :=
  ∃ (n : Nat) (f : Field) (k : ScalarKind) (c lane : Nat) (v : Value) (y : UInt32),
    fields[n]? = some f ∧ f.ty.leaf? = some (k, c) ∧ lane < c ∧ p = leafPiece n f k lane ∧
      values[n]? = some v ∧ lane? f.ty v lane = some y ∧
      x = (Insert.plan p.offset k maskUnsigned).bits y

variable {m : Module} {fields : List Field} {values : List Value} {a : Nat} {g : Group}
  {maskUnsigned : Bool} (hm : m.StructsSound) {h : Handle} {d : TypeDef}
  (hd : m.def? h = some d) (hb : d.body = .struct fields) (ha : a % 4 = 0)
include hm hd hb

theorem share_leafPiece_iff {n : Nat} {f : Field} {k : ScalarKind} {c lane : Nat}
    (hf : fields[n]? = some f) (hl : f.ty.leaf? = some (k, c)) (hlane : lane < c) {x : UInt32} :
    Share fields values maskUnsigned (leafPiece n f k lane) x ↔
      ∃ v y, values[n]? = some v ∧ lane? f.ty v lane = some y ∧
        x = (Insert.plan (leafPiece n f k lane).offset k maskUnsigned).bits y := by
  constructor
  · rintro ⟨n', f', k', c', lane', v, y, hf', hl', hlane', hpiece, hv, hy, hx⟩
    obtain rfl : n = n' := congrArg Piece.field hpiece
    obtain rfl := Option.some.inj (hf.symm.trans hf')
    obtain ⟨rfl, rfl⟩ := Prod.mk.inj (Option.some.inj (hl.symm.trans hl'))
    have hp := (hm.struct hd hb).placed f (List.mem_of_getElem? hf)
    obtain rfl := leafPiece_inj hp hl hlane hlane' hpiece
    exact ⟨v, y, hv, hy, hx⟩
  · rintro ⟨v, y, hv, hy, rfl⟩
    exact ⟨n, f, k, c, lane, v, y, hf, hl, hlane, rfl, hv, hy, rfl⟩

include ha

theorem bit_share_iff {n : Nat} {f : Field} {k : ScalarKind} {c lane : Nat}
    (hf : fields[n]? = some f) (hl : f.ty.leaf? = some (k, c)) (hlane : lane < c) {x : UInt32}
    (hx : Share fields values maskUnsigned (leafPiece n f k lane) x) {i : Nat} (hi : i < 32) :
    bit x i = true ↔ ∃ v y i', values[n]? = some v ∧ lane? f.ty v lane = some y ∧
      i' < 8 * k.size.toNat ∧ bit y i' = true ∧
      32 * (a / 4 + (leafPiece n f k lane).word.toNat) + i =
        8 * (a + f.offset.toNat + lane * k.size.toNat) + i' := by
  have hp := (hm.struct hd hb).placed f (List.mem_of_getElem? hf)
  have hoff : (leafPiece n f k lane).offset.toNat = f.offset.toNat + lane * k.size.toNat :=
    hp.laneOffset_toNat hl hlane
  have halign := hp.laneOffset_aligned hl lane
  have hfit := k.fits_word halign
  rw [← hoff] at halign
  obtain ⟨v, y, hv, hy, rfl⟩ := (share_leafPiece_iff hm hd hb hf hl hlane).mp hx
  rw [Insert.bit_bits_plan halign (lane?_inRange hl maskUnsigned hy) hi, Bool.and_eq_true,
    decide_eq_true_eq, Piece.word, toNat_div_four, hoff]
  constructor
  · rintro ⟨⟨hlo, hhi⟩, hbit⟩
    exact ⟨v, y, _, hv, hy, by omega, hbit, by omega⟩
  · rintro ⟨v', y', i', hv', hy', hi', hbit, hpos⟩
    obtain rfl := Option.some.inj (hv.symm.trans hv')
    obtain rfl := Option.some.inj (hy.symm.trans hy')
    refine ⟨by omega, ?_⟩
    rwa [show i - 8 * ((f.offset.toNat + lane * k.size.toNat) % 4) = i' by omega]

theorem groupStored_word (hg : g ∈ resolve fields d.size .write) (hraw : g.needsRaw = true)
    {old : Array UInt32} (hin : a / 4 + g.word.toNat < old.size) {shares : List UInt32}
    (hshares : List.Forall₂ (Share fields values maskUnsigned) g.pieces shares) :
    GroupStored m fields values a g old
      (old.set! (a / 4 + g.word.toNat) (shares.foldl (· ||| ·) 0)) := by
  have hs := hm.struct hd hb
  refine .word hraw ?_ hin rfl fun i hi => ?_
  · intro p hp
    obtain ⟨x, -, n, f, k, c, lane, v, y, -, -, -, rfl, -⟩ := exists_right_of_mem hshares hp
    exact leafPiece_isRaw n f k lane
  · rw [bit_foldl_or, bit_zero]
    constructor
    · rintro (hfalse | ⟨x, hx, hbit⟩)
      · cases hfalse
      · obtain ⟨p, hp, hshare⟩ := exists_left_of_mem hshares hx
        obtain ⟨n, f, k, c, lane, -, -, hf, hl, hlane, rfl, -⟩ := id hshare
        obtain ⟨v, y, i', hv, hy, hi', hy', hpos⟩ :=
          (bit_share_iff hm hd hb ha hf hl hlane hshare hi).mp hbit
        refine ⟨n, f, (k, c), v, hf, hv, hl, (image_leaf_iff hl).mpr ⟨lane, i', y, hlane, hy, hi',
          ?_, hy'.symm⟩⟩
        rw [(of_mem_group hg hp).2]
        exact hpos
    · rintro ⟨n, f, ⟨k, c⟩, v, hf, hv, hl, himg⟩
      right
      have hp := hs.placed f (List.mem_of_getElem? hf)
      obtain ⟨lane, i', y, hlane, hy, hi', hpos, hbit⟩ := (image_leaf_iff hl).mp himg
      have hword : (leafPiece n f k lane).word.toNat = g.word.toNat := by
        have hleaf := leaf_word ha (hp.laneOffset_aligned hl lane) hi'
        rw [Piece.word, toNat_div_four, leafPiece, hp.laneOffset_toNat hl hlane]
        omega
      have hmem := mem_group_of_word_eq hg ((mem_pieces_write_iff hs (hm.aligned h d hd)).mpr
        ⟨n, f, hf, .inl ⟨k, c, lane, hl, hlane, rfl⟩⟩) hword
      obtain ⟨x, hx, hshare⟩ := exists_right_of_mem hshares hmem
      refine ⟨x, hx, (bit_share_iff hm hd hb ha hf hl hlane hshare hi).mpr
        ⟨v, y, i', hv, hy, hi', hbit.symm, ?_⟩⟩
      rw [hword]
      exact hpos

end shares

end WordLayout.Host
