import Mathlib
import WordLayout.Proofs.Validation.WellFormed

namespace WordLayout.Validation

open Word

theorem exact_le_iff_of_wrapped_le {a b size : UInt32} (h : a + b ≤ size) :
    a.toNat + b.toNat ≤ size.toNat ↔ a.toNat + b.toNat < 2 ^ 32 := by
  constructor
  · intro hle
    exact hle.trans_lt size.toNat_lt
  · intro hlt
    rwa [UInt32.le_iff_toNat_le, toNat_add_of_lt hlt] at h

theorem field_wrapped_le {m : Module} {d : TypeDef} (he : defErrors m d = []) {fields : List Field}
    (hb : d.body = .struct fields) {f : Field} (hf : f ∈ fields) : f.offset + f.size ≤ d.size := by
  have hflaws := fieldFlaws_eq_nil he hb hf
  exact ((fieldFlaws_eq_nil_iff m d.size f).mp hflaws).2.2.2

theorem payload_wrapped_le {m : Module} {d : TypeDef} (he : defErrors m d = [])
    {variants : List Variant} (hb : d.body = .union variants) {v : Variant} (hv : v ∈ variants)
    {offset : UInt32} {t : Handle} (hp : v.payload = .struct offset t) :
    offset + m.sizeOf (.inline t) ≤ d.size := by
  have hflaws := payloadFlaws_eq_nil he hb hv
  rw [hp] at hflaws
  exact ((payloadFlaws_eq_nil_iff m d.size offset t).mp hflaws).2.2.2

/-- In an accepted module a member ends inside its definition if and only if its exact end is a
word. -/
theorem members_inside_iff_ends_exact {m : Module} (hv : m.validate = []) {d : TypeDef}
    (hd : d ∈ m.defs) :
    (∀ fields, d.body = .struct fields → ∀ f ∈ fields,
      (f.offset.toNat + f.size.toNat ≤ d.size.toNat ↔
        f.offset.toNat + f.size.toNat < 2 ^ 32)) ∧
    (∀ variants, d.body = .union variants → ∀ v ∈ variants, ∀ offset t,
      v.payload = .struct offset t →
        (offset.toNat + (m.sizeOf (.inline t)).toNat ≤ d.size.toNat ↔
          offset.toNat + (m.sizeOf (.inline t)).toNat < 2 ^ 32)) := by
  have he := defErrors_eq_nil hv hd
  constructor
  · intro fields hb f hf
    exact exact_le_iff_of_wrapped_le (field_wrapped_le he hb hf)
  · intro variants hb v hvar offset t hp
    exact exact_le_iff_of_wrapped_le (payload_wrapped_le he hb hvar hp)

def wrappedModule : Module :=
  { name := "m", writable := false
    defs :=
      [{ name := "P", size := 4, body := .struct [⟨"a", 0, .scalar .u32, 4⟩] },
        { name := "S", size := 4, body := .struct [⟨"a", 4294967292, .scalar .u32, 4⟩] },
        { name := "U", size := 4, body := .union [⟨"v", .struct 4294967292 0⟩] }] }

theorem wrappedModule_accepted : wrappedModule.validate = [] := by
  decide +kernel

theorem accepted_members_outside :
    (¬ ∀ m : Module, m.validate = [] → ∀ d ∈ m.defs, ∀ fields, d.body = .struct fields →
      ∀ f ∈ fields, f.offset.toNat + f.size.toNat ≤ d.size.toNat) ∧
    (¬ ∀ m : Module, m.validate = [] → ∀ d ∈ m.defs, ∀ variants, d.body = .union variants →
      ∀ v ∈ variants, ∀ offset t, v.payload = .struct offset t →
        offset.toNat + (m.sizeOf (.inline t)).toNat ≤ d.size.toNat) := by
  constructor
  · intro h
    have hf := h wrappedModule wrappedModule_accepted
      { name := "S", size := 4, body := .struct [⟨"a", 4294967292, .scalar .u32, 4⟩] }
      (by decide) _ rfl ⟨"a", 4294967292, .scalar .u32, 4⟩ (by decide)
    exact absurd hf (by decide)
  · intro h
    have hp := h wrappedModule wrappedModule_accepted
      { name := "U", size := 4, body := .union [⟨"v", .struct 4294967292 0⟩] }
      (by decide) _ rfl ⟨"v", .struct 4294967292 0⟩ (by decide) 4294967292 0 rfl
    exact absurd hp (by decide)

theorem members_inside_first_struct :
    wrappedModule.validate = [] ∧
      (∀ f ∈ [(⟨"a", 0, .scalar .u32, 4⟩ : Field)],
        f.offset.toNat + f.size.toNat ≤ (4 : UInt32).toNat) := by
  refine ⟨wrappedModule_accepted, fun f hf => ?_⟩
  have hd : { name := "P", size := 4, body := .struct [⟨"a", 0, .scalar .u32, 4⟩] } ∈
      wrappedModule.defs := by decide
  refine ((members_inside_iff_ends_exact wrappedModule_accepted hd).1 _ rfl f hf).mpr ?_
  obtain rfl := List.mem_singleton.mp hf
  decide

end WordLayout.Validation
