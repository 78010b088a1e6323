import Mathlib
import WordLayout.Proofs.Coverage
import WordLayout.Proofs.Host.Value

/-!
Values in memory. A value is well typed if it has the shape that its type asks for; at a byte
address it then determines every bit that a scalar of its type covers, and no other. Memory holds a
value if it has these bits.
-/

namespace WordLayout.Host

open Word

inductive WellTyped (m : Module) : Ty → Value → Prop
  | scalar {k : ScalarKind} {v : Value} (hv : (v.bits? k).isSome = true) :
      WellTyped m (.scalar k) v
  | vector {k : ScalarKind} {lanes : UInt8} {vs : List Value} (hn : vs.length = lanes.toNat)
      (hv : ∀ v ∈ vs, (v.bits? k).isSome = true) : WellTyped m (.vector k lanes) (.vector vs)
  | ref {t : Handle} {offset : UInt32} : WellTyped m (.ref t) (.ref offset)
  | struct {t : Handle} {d : TypeDef} {fields : List Field} {values : List Value}
      (hd : m.def? t = some d) (hb : d.body = .struct fields)
      (hn : values.length = fields.length)
      (hv : ∀ (i : Nat) (f : Field) (v : Value), fields[i]? = some f → values[i]? = some v →
        WellTyped m f.ty v) :
      WellTyped m (.inline t) (.struct t values)

def lane? : Ty → Value → Nat → Option UInt32
  | .scalar k, v, _ => v.bits? k
  | .vector k lanes, .vector vs, lane =>
    if vs.length = lanes.toNat then (vs[lane]?).bind (·.bits? k) else none
  | .ref _, .ref offset, _ => some offset
  | _, _, _ => none

/-- The bits of memory that the scalars of a type at a byte address cover, at any depth. -/
inductive Covers (m : Module) : Ty → Nat → Nat → Prop
  | leaf {ty : Ty} {k : ScalarKind} {n lane i a : Nat} (hl : ty.leaf? = some (k, n))
      (hn : lane < n) (hi : i < 8 * k.size.toNat) :
      Covers m ty a (8 * (a + lane * k.size.toNat) + i)
  | struct {t : Handle} {d : TypeDef} {fields : List Field} {f : Field} {a b : Nat}
      (hd : m.def? t = some d) (hb : d.body = .struct fields) (hf : f ∈ fields)
      (hc : Covers m f.ty (a + f.offset.toNat) b) : Covers m (.inline t) a b

/-- The bits of memory that a value of a type at a byte address determines, with their contents. -/
inductive Image (m : Module) : Ty → Nat → Value → Nat → Bool → Prop
  | leaf {ty : Ty} {k : ScalarKind} {n lane i a : Nat} {v : Value} {x : UInt32}
      (hl : ty.leaf? = some (k, n)) (hn : lane < n) (hx : lane? ty v lane = some x)
      (hi : i < 8 * k.size.toNat) :
      Image m ty a v (8 * (a + lane * k.size.toNat) + i) (bit x i)
  | struct {t : Handle} {d : TypeDef} {fields : List Field} {values : List Value} {f : Field}
      {v : Value} {i a b : Nat} {x : Bool} (hd : m.def? t = some d)
      (hb : d.body = .struct fields) (hf : fields[i]? = some f) (hv : values[i]? = some v)
      (hx : Image m f.ty (a + f.offset.toNat) v b x) : Image m (.inline t) a (.struct t values) b x

def Holds (m : Module) (mem : Nat → Bool) (ty : Ty) (a : Nat) (v : Value) : Prop :=
  WellTyped m ty v ∧ ∀ b x, Image m ty a v b x → mem b = x

def bitsOf (words : Array UInt32) (b : Nat) : Bool := bit (words.getD (b / 32) 0) (b % 32)

section leaves

variable {m : Module} {ty : Ty} {k : ScalarKind} {n : Nat} {v : Value}

theorem wellTyped_leaf_iff (hl : ty.leaf? = some (k, n)) (hn : 0 < n) :
    WellTyped m ty v ↔ ∀ lane < n, (lane? ty v lane).isSome = true := by
  cases ty with
  | scalar k' =>
    constructor
    · rintro (hv | _) lane -
      exact hv
    · intro h
      exact .scalar (h 0 hn)
  | vector k' lanes =>
    simp only [Ty.leaf?, Option.some.injEq, Prod.mk.injEq] at hl
    obtain ⟨rfl, rfl⟩ := hl
    constructor
    · intro h lane hlane
      cases h with
      | vector hlen hv =>
        rename_i vs
        have hlt : lane < vs.length := by omega
        simp only [lane?, if_pos hlen, List.getElem?_eq_getElem hlt, Option.bind_some]
        exact hv _ (List.getElem_mem hlt)
    · intro h
      cases v with
      | vector vs =>
        by_cases hlen : vs.length = lanes.toNat
        · refine .vector hlen fun v hv => ?_
          obtain ⟨i, hi, rfl⟩ := List.getElem_of_mem hv
          have hx := h i (by omega)
          simpa only [lane?, if_pos hlen, List.getElem?_eq_getElem hi, Option.bind_some] using hx
        · have hx := h 0 hn
          simp [lane?, hlen] at hx
      | _ => simpa [lane?] using h 0 hn
  | ref t =>
    constructor
    · intro h lane _
      cases h
      rfl
    · intro h
      have hx := h 0 hn
      cases v with
      | ref offset => exact .ref
      | _ => simp [lane?] at hx
  | inline t => simp [Ty.leaf?] at hl
  | missing => simp [Ty.leaf?] at hl

theorem lane?_inRange (hl : ty.leaf? = some (k, n)) (maskUnsigned : Bool) {lane : Nat} {x : UInt32}
    (hx : lane? ty v lane = some x) : Insert.InRange k maskUnsigned x := by
  cases ty with
  | scalar k' =>
    simp only [Ty.leaf?, Option.some.injEq, Prod.mk.injEq] at hl
    obtain ⟨rfl, rfl⟩ := hl
    exact Value.inRange_of_bits? maskUnsigned hx
  | vector k' lanes =>
    simp only [Ty.leaf?, Option.some.injEq, Prod.mk.injEq] at hl
    obtain ⟨rfl, rfl⟩ := hl
    cases v with
    | vector vs =>
      simp only [lane?] at hx
      split at hx
      · obtain ⟨w, -, hw⟩ := Option.bind_eq_some_iff.mp hx
        exact Value.inRange_of_bits? maskUnsigned hw
      · cases hx
    | _ => simp [lane?] at hx
  | ref t =>
    simp only [Ty.leaf?, Option.some.injEq, Prod.mk.injEq] at hl
    obtain ⟨rfl, rfl⟩ := hl
    exact .inr (.inr fun i hi => bit_of_le x hi)
  | inline t => simp [Ty.leaf?] at hl
  | missing => simp [Ty.leaf?] at hl

theorem bitsOf_leaf (words : Array UInt32) {a i : Nat} (ha : a % k.size.toNat = 0)
    (hi : i < 8 * k.size.toNat) :
    bitsOf words (8 * a + i) = bit (words.getD (a / 4) 0) (8 * (a % 4) + i) := by
  have hfit := k.fits_word ha
  unfold bitsOf
  congr 2 <;> omega

end leaves

section inversion

variable {m : Module} {ty : Ty} {k : ScalarKind} {n : Nat} {v : Value} {a b : Nat} {x : Bool}

theorem covers_leaf_iff (hl : ty.leaf? = some (k, n)) :
    Covers m ty a b ↔
      ∃ lane i, lane < n ∧ i < 8 * k.size.toNat ∧ b = 8 * (a + lane * k.size.toNat) + i := by
  constructor
  · intro h
    cases h with
    | leaf hl' hn hi =>
      obtain ⟨rfl, rfl⟩ := Prod.mk.inj (Option.some.inj (hl.symm.trans hl'))
      exact ⟨_, _, hn, hi, rfl⟩
    | struct => simp [Ty.leaf?] at hl
  · rintro ⟨lane, i, hn, hi, rfl⟩
    exact .leaf hl hn hi

theorem image_leaf_iff (hl : ty.leaf? = some (k, n)) :
    Image m ty a v b x ↔
      ∃ lane i y, lane < n ∧ lane? ty v lane = some y ∧ i < 8 * k.size.toNat ∧
        b = 8 * (a + lane * k.size.toNat) + i ∧ x = bit y i := by
  constructor
  · intro h
    cases h with
    | leaf hl' hn hy hi =>
      obtain ⟨rfl, rfl⟩ := Prod.mk.inj (Option.some.inj (hl.symm.trans hl'))
      exact ⟨_, _, _, hn, hy, hi, rfl, rfl⟩
    | struct => simp [Ty.leaf?] at hl
  · rintro ⟨lane, i, y, hn, hy, hi, rfl, rfl⟩
    exact .leaf hl hn hy hi

variable {t : Handle} {d : TypeDef} {fields : List Field} {values : List Value}
  (hd : m.def? t = some d) (hb : d.body = .struct fields)
include hd hb

theorem wellTyped_struct_iff :
    WellTyped m (.inline t) v ↔ ∃ values, v = .struct t values ∧ values.length = fields.length ∧
      ∀ (i : Nat) (f : Field) (u : Value), fields[i]? = some f → values[i]? = some u →
        WellTyped m f.ty u := by
  constructor
  · intro h
    cases h with
    | struct hd' hb' hn hv =>
      obtain rfl := Option.some.inj (hd.symm.trans hd')
      obtain rfl := Body.struct.inj (hb.symm.trans hb')
      exact ⟨_, rfl, hn, hv⟩
  · rintro ⟨values, rfl, hn, hv⟩
    exact .struct hd hb hn hv

theorem WellTyped.members (h : WellTyped m (.inline t) (.struct t values)) :
    values.length = fields.length ∧
      ∀ (i : Nat) (f : Field) (u : Value), fields[i]? = some f → values[i]? = some u →
        WellTyped m f.ty u := by
  obtain ⟨values', heq, hn, hv⟩ := (wellTyped_struct_iff hd hb).mp h
  obtain ⟨-, rfl⟩ := Value.struct.inj heq
  exact ⟨hn, hv⟩

theorem covers_struct_iff :
    Covers m (.inline t) a b ↔ ∃ f ∈ fields, Covers m f.ty (a + f.offset.toNat) b := by
  constructor
  · intro h
    cases h with
    | leaf hl => simp [Ty.leaf?] at hl
    | struct hd' hb' hf hc =>
      obtain rfl := Option.some.inj (hd.symm.trans hd')
      obtain rfl := Body.struct.inj (hb.symm.trans hb')
      exact ⟨_, hf, hc⟩
  · rintro ⟨f, hf, hc⟩
    exact .struct hd hb hf hc

theorem image_struct_iff :
    Image m (.inline t) a (.struct t values) b x ↔
      ∃ (i : Nat) (f : Field) (u : Value), fields[i]? = some f ∧ values[i]? = some u ∧
        Image m f.ty (a + f.offset.toNat) u b x := by
  constructor
  · generalize hv : Value.struct t values = v
    intro h
    cases h with
    | leaf hl => simp [Ty.leaf?] at hl
    | struct hd' hb' hf hu hx =>
      obtain rfl := Option.some.inj (hd.symm.trans hd')
      obtain rfl := Body.struct.inj (hb.symm.trans hb')
      obtain ⟨-, rfl⟩ := Value.struct.inj hv
      exact ⟨_, _, _, hf, hu, hx⟩
  · rintro ⟨i, f, u, hf, hu, hx⟩
    exact .struct hd hb hf hu hx

end inversion

section bounds

variable {m : Module} {ty : Ty} {v : Value} {a b : Nat} {x : Bool}

theorem Image.covers (h : Image m ty a v b x) : Covers m ty a b := by
  induction h with
  | leaf hl hn hx hi => exact .leaf hl hn hi
  | struct hd hb hf hv hx ih => exact .struct hd hb (List.mem_of_getElem? hf) ih

theorem Covers.bounds (hm : m.StructsSound) (h : Covers m ty a b) :
    8 * a ≤ b ∧ b < 8 * (a + (m.sizeOf ty).toNat) := by
  induction h with
  | @leaf ty k n lane i a hl hn hi =>
    have hsize := sizeOf_leaf m hl
    have hlane : (lane + 1) * k.size.toNat ≤ n * k.size.toNat := Nat.mul_le_mul_right _ hn
    rw [Nat.add_mul, Nat.one_mul] at hlane
    omega
  | @struct t d fields f a b hd hb hf hc ih =>
    have hp := (hm.struct hd hb).placed f hf
    have hstop := hp.stop_le
    have hsize : m.sizeOf (.inline t) = d.size := by simp [Module.sizeOf, hd]
    rw [hsize]
    rw [← hp.size_eq] at ih
    simp only [Field.stop] at hstop
    omega

theorem Covers.field_bounds (hm : m.StructsSound) {size : UInt32} {f : Field}
    (hp : f.Placed m size) (h : Covers m f.ty (a + f.offset.toNat) b) :
    8 * (a + f.offset.toNat) ≤ b ∧ b < 8 * (a + f.stop) := by
  have hb := h.bounds hm
  rw [← hp.size_eq] at hb
  simp only [Field.stop]
  omega

theorem Covers.shift (h : Covers m ty a b) (c : Nat) : Covers m ty (a + c) (b + 8 * c) := by
  induction h with
  | @leaf ty k n lane i a hl hn hi =>
    exact (covers_leaf_iff hl).mpr ⟨lane, i, hn, hi, by omega⟩
  | struct hd hb hf hc ih =>
    refine .struct hd hb hf ?_
    rwa [Nat.add_right_comm]

theorem Covers.unshift {a' b' c : Nat} (h : Covers m ty a' b') (ha : a' = a + c) :
    ∃ b, b' = b + 8 * c ∧ Covers m ty a b := by
  induction h generalizing a with
  | @leaf ty k n lane i a' hl hn hi =>
    exact ⟨8 * (a + lane * k.size.toNat) + i, by omega, .leaf hl hn hi⟩
  | @struct _ _ _ f _ _ hd hb hf hc ih =>
    obtain ⟨b, hb', hcov⟩ := ih (by omega : _ = a + f.offset.toNat + c)
    exact ⟨b, hb', .struct hd hb hf hcov⟩

theorem Image.shift (h : Image m ty a v b x) (c : Nat) : Image m ty (a + c) v (b + 8 * c) x := by
  induction h with
  | @leaf ty k n lane i a v y hl hn hy hi =>
    exact (image_leaf_iff hl).mpr ⟨lane, i, y, hn, hy, hi, by omega, rfl⟩
  | struct hd hb hf hv hx ih =>
    refine .struct hd hb hf hv ?_
    rwa [Nat.add_right_comm]

theorem Image.unshift {a' b' c : Nat} (h : Image m ty a' v b' x) (ha : a' = a + c) :
    ∃ b, b' = b + 8 * c ∧ Image m ty a v b x := by
  induction h generalizing a with
  | @leaf ty k n lane i a' v y hl hn hy hi =>
    exact ⟨8 * (a + lane * k.size.toNat) + i, by omega, .leaf hl hn hy hi⟩
  | @struct _ _ _ _ f _ _ _ _ _ hd hb hf hv hx ih =>
    obtain ⟨b, hb', himg⟩ := ih (by omega : _ = a + f.offset.toNat + c)
    exact ⟨b, hb', .struct hd hb hf hv himg⟩

end bounds

end WordLayout.Host
