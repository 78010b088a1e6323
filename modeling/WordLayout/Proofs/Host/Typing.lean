import Mathlib
import WordLayout.Proofs.Host.RoundTrip

namespace WordLayout.Host

def Value.kind? : Value → Option ScalarKind
  | .f32 _ => some .f32
  | .u8 _ => some .u8
  | .u16 _ => some .u16
  | .u32 _ => some .u32
  | .i8 _ => some .i8
  | .i16 _ => some .i16
  | .i32 _ => some .i32
  | .ref _ | .vector _ | .struct .. | .nil | .foreign _ => none

mutual

/-- A value is of a type: a scalar of the kind, a vector of as many of them as there are lanes, a
reference, or a struct value of the definition, field by field. -/
def fits (m : Module) : Ty → Value → Bool
  | .scalar k, v => v.kind? = some k
  | .vector k lanes, .vector vs => vs.length = lanes.toNat && vs.all fun v => v.kind? = some k
  | .ref _, .ref _ => true
  | .inline t, .struct given values =>
    match m.def? t with
    | some ⟨_, _, .struct fields⟩ => given = t && fitsAll m fields values
    | _ => false
  | _, _ => false

def fitsAll (m : Module) : List Field → List Value → Bool
  | [], [] => true
  | f :: fields, v :: values => fits m f.ty v && fitsAll m fields values
  | _, _ => false

end

def payloadFits (m : Module) : Payload → Option (Handle × List Value) → Bool
  | .struct _ t, some (given, values) => fits m (.inline t) (.struct given values)
  | .empty, none | .missing, none => true
  | _, _ => false

section fits

variable {m : Module}

theorem kind?_eq_some_iff {v : Value} {k : ScalarKind} :
    v.kind? = some k ↔ (v.bits? k).isSome = true := by
  cases k <;> cases v <;> simp [Value.kind?, Value.bits?]

theorem fitsAll_iff {fields : List Field} {values : List Value}
    (hfits : ∀ v ∈ values, ∀ ty, fits m ty v = true ↔ WellTyped m ty v) :
    fitsAll m fields values = true ↔ values.length = fields.length ∧
      ∀ (i : Nat) (f : Field) (v : Value), fields[i]? = some f → values[i]? = some v →
        WellTyped m f.ty v := by
  induction fields generalizing values with
  | nil => cases values <;> simp [fitsAll]
  | cons f fields ih =>
    cases values with
    | nil => simp [fitsAll]
    | cons v values =>
      rw [List.forall_mem_cons] at hfits
      rw [fitsAll, Bool.and_eq_true, hfits.1, ih hfits.2, List.length_cons, List.length_cons,
        Nat.succ_inj]
      constructor
      · rintro ⟨hv, hlen, hrest⟩
        refine ⟨hlen, ?_⟩
        rintro (_ | i) g u hg hu
        · obtain rfl := Option.some.inj hg
          obtain rfl := Option.some.inj hu
          exact hv
        · exact hrest i g u hg hu
      · rintro ⟨hlen, hall⟩
        exact ⟨hall 0 f v rfl rfl, hlen, fun i g u hg hu => hall (i + 1) g u hg hu⟩

theorem fits_inline_iff {t given : Handle} {values : List Value}
    (hfits : ∀ v ∈ values, ∀ ty, fits m ty v = true ↔ WellTyped m ty v) :
    fits m (.inline t) (.struct given values) = true ↔
      WellTyped m (.inline t) (.struct given values) := by
  rw [fits]
  split
  · rename_i name size fields hd
    rw [Bool.and_eq_true, decide_eq_true_eq, fitsAll_iff hfits, wellTyped_struct_iff hd rfl]
    constructor
    · rintro ⟨rfl, hall⟩
      exact ⟨values, rfl, hall⟩
    · rintro ⟨values', heq, hall⟩
      obtain ⟨rfl, rfl⟩ := Value.struct.inj heq
      exact ⟨rfl, hall⟩
  · rename_i hno
    refine iff_of_false (by simp) ?_
    rintro (_ | _ | _ | @⟨_, ⟨name, size, body⟩, fields, _, hd, rfl, -, -⟩)
    exact hno name size fields hd

theorem fits_iff (ty : Ty) (v : Value) : fits m ty v = true ↔ WellTyped m ty v := by
  induction hn : sizeOf v using Nat.strong_induction_on generalizing ty v with
  | _ n ih =>
    cases ty with
    | scalar k =>
      rw [fits, decide_eq_true_eq, kind?_eq_some_iff]
      constructor
      · exact .scalar
      · rintro ⟨hv⟩
        exact hv
    | vector k lanes =>
      cases v with
      | vector vs =>
        rw [fits, Bool.and_eq_true, decide_eq_true_eq, List.all_eq_true]
        simp only [decide_eq_true_eq, kind?_eq_some_iff]
        constructor
        · rintro ⟨hlen, hall⟩
          exact .vector hlen hall
        · rintro (_ | ⟨hlen, hall⟩)
          exact ⟨hlen, hall⟩
      | _ => exact iff_of_false (by simp [fits]) nofun
    | ref t =>
      cases v with
      | ref offset => exact iff_of_true rfl .ref
      | _ => exact iff_of_false (by simp [fits]) nofun
    | inline t =>
      cases v with
      | struct given values =>
        apply fits_inline_iff
        intro v hv ty
        have hlt := List.sizeOf_lt_of_mem hv
        rw [Value.struct.sizeOf_spec] at hn
        exact ih (sizeOf v) (by omega) ty v rfl
      | _ => exact iff_of_false (by simp [fits]) nofun
    | missing => exact iff_of_false (by simp [fits]) nofun

theorem payloadFits_iff {p : Payload} {payload : Option (Handle × List Value)} :
    payloadFits m p payload = true ↔ ∃ place, PayloadPlace p place ∧
      payload.map (·.1) = place.map (·.2) ∧ ∀ t values, payload = some (t, values) →
        WellTyped m (.inline t) (.struct t values) := by
  constructor
  · intro h
    unfold payloadFits at h
    split at h
    · rename_i at_ t given values
      have hwt := (fits_iff _ _).mp h
      obtain rfl : given = t := by
        cases hwt
        rfl
      refine ⟨some (at_, given), .struct at_ given, rfl, ?_⟩
      rintro _ _ ⟨⟩
      exact hwt
    · exact ⟨none, .empty, rfl, nofun⟩
    · exact ⟨none, .missing, rfl, nofun⟩
    · cases h
  · rintro ⟨place, hplace, hty, hwt⟩
    cases hplace with
    | empty | missing =>
      obtain rfl : payload = none := by simpa using hty
      rfl
    | struct at_ t =>
      obtain ⟨⟨given, values⟩, rfl, rfl⟩ : ∃ p, payload = some p ∧ p.1 = t := by simpa using hty
      exact (fits_iff _ _).mpr (hwt _ values rfl)

end fits

section writes

variable {b : Buffer}

theorem writeStruct_ok_iff (hm : b.module.WellFormed) {offset : UInt32} {h : Handle}
    {values : List Value} :
    (∃ b', b.writeStruct offset h values = .ok b') ↔
      ∃ d fields, b.module.def? h = some d ∧ d.body = .struct fields ∧
        Inside b.words.size d.size offset ∧ fits b.module (.inline h) (.struct h values) = true := by
  constructor
  · rintro ⟨b', hwrite⟩
    obtain ⟨d, fields, scratch, hd, hb, hin, hscratch, -⟩ := writeStruct_eq_ok_iff.mp hwrite
    exact ⟨d, fields, hd, hb, hin, (fits_iff _ _).mpr (encodeWindow_stored hm hd hb hin hscratch).1⟩
  · rintro ⟨d, fields, hd, hb, hin, hfits⟩
    exact writeStruct_ok hm hd hb hin ((fits_iff _ _).mp hfits)

theorem writeVariant_ok_iff (hm : b.module.WellFormed) {h : Handle} {tag offset : UInt32}
    {payload : Option (Handle × List Value)} :
    (∃ b', b.writeVariant h tag offset payload = .ok b') ↔
      ∃ d variants v, b.module.def? h = some d ∧ d.body = .union variants ∧
        Inside b.words.size d.size offset ∧ variants[tag.toNat]? = some v ∧
        payloadFits b.module v.payload payload = true := by
  constructor
  · rintro ⟨b', hwrite⟩
    obtain ⟨d, variants, v, place, hd, hb, hin, hv, hplace, -, hst⟩ :=
      writeVariant_stored hm hwrite
    refine ⟨d, variants, v, hd, hb, hin, hv, payloadFits_iff.mpr ⟨place, hplace, ?_⟩⟩
    cases hst with
    | none => exact ⟨rfl, nofun⟩
    | struct hwt =>
      refine ⟨rfl, ?_⟩
      rintro _ _ ⟨⟩
      exact hwt
  · rintro ⟨d, variants, v, hd, hb, hin, hv, hfits⟩
    obtain ⟨place, hplace, hty, hwt⟩ := payloadFits_iff.mp hfits
    exact writeVariant_ok hm hd hb hin hv hplace hty hwt

/-- In a buffer over an accepted module, exactly the values of the right types can be written. -/
theorem writes_accept_exactly_typed (hv : b.module.validate = []) (hx : b.module.ExactEnds) :
    (∀ offset h values, (∃ b', b.writeStruct offset h values = .ok b') ↔
      ∃ d fields, b.module.def? h = some d ∧ d.body = .struct fields ∧
        Inside b.words.size d.size offset ∧
        fits b.module (.inline h) (.struct h values) = true) ∧
    (∀ h tag offset payload, (∃ b', b.writeVariant h tag offset payload = .ok b') ↔
      ∃ d variants v, b.module.def? h = some d ∧ d.body = .union variants ∧
        Inside b.words.size d.size offset ∧ variants[tag.toNat]? = some v ∧
        payloadFits b.module v.payload payload = true) := by
  have hm := Validation.wellFormed_of_validate hv hx
  exact ⟨fun _ _ _ => writeStruct_ok_iff hm, fun _ _ _ _ => writeVariant_ok_iff hm⟩

theorem writes_accept_exactly_typed_sample :
    sampleModule.validate = [] ∧ sampleModule.ExactEnds ∧
      (∃ b', Buffer.writeStruct ⟨sampleModule, Array.replicate 8 0⟩ 4 1 sampleFields = .ok b') ∧
      (¬ ∃ b', Buffer.writeStruct ⟨sampleModule, Array.replicate 8 0⟩ 4 1
        (sampleFields.set 0 (.vector [.i16 1, .f32 2, .i16 3])) = .ok b') ∧
      (∃ b', Buffer.writeVariant ⟨sampleModule, Array.replicate 8 0⟩ 2 1 8
        (some (0, samplePacked)) = .ok b') ∧
      ¬ ∃ b', Buffer.writeVariant ⟨sampleModule, Array.replicate 8 0⟩ 2 0 8
        (some (0, samplePacked)) = .ok b' := by
  have hx : sampleModule.ExactEnds := by decide
  obtain ⟨hstruct, hvariant⟩ := writes_accept_exactly_typed
    (b := ⟨sampleModule, Array.replicate 8 0⟩) sampleModule_accepted hx
  refine ⟨sampleModule_accepted, hx, ?_, ?_, ?_, ?_⟩
  · exact (hstruct 4 1 sampleFields).mpr ⟨_, _, rfl, rfl, ⟨by decide, by decide⟩, by decide⟩
  · rw [hstruct]
    rintro ⟨d, fields, -, -, -, hfits⟩
    exact absurd hfits (by decide)
  · exact (hvariant 2 1 8 _).mpr ⟨_, _, _, rfl, rfl, ⟨by decide, by decide⟩, rfl, by decide⟩
  · rw [hvariant]
    rintro ⟨d, variants, v, hd, hb, -, hv, hfits⟩
    obtain rfl := Option.some.inj hd
    obtain rfl := Body.union.inj hb
    obtain rfl := Option.some.inj hv
    exact absurd hfits (by decide)

end writes

end WordLayout.Host
