import Mathlib
import WordLayout.Shader.Accessors
import WordLayout.Proofs.Host.Decode
import WordLayout.Proofs.Shader.Execution

namespace WordLayout.Shader

open Word Host

def widenScalar : Host.Value → Value
  | .f32 bits => .float bits
  | .u8 n => .uint n.toUInt32
  | .u16 n => .uint n.toUInt32
  | .u32 n => .uint n
  | .i8 n => .int n.toInt32.toUInt32
  | .i16 n => .int n.toInt32.toUInt32
  | .i32 n => .int n.toUInt32
  | _ => .uint 0

def fieldsOf (m : Module) (t : Handle) : List Field :=
  match m.def? t with
  | some ⟨_, _, .struct fields⟩ => fields
  | _ => []

mutual

def widen (m : Module) (ty : Ty) : Host.Value → Value
  | .vector [v] => widenScalar v
  | .vector vs => .vector (vs.map widenScalar)
  | .ref offset =>
    match ty with
    | .ref t => .handle (m.nameOf t) offset
    | _ => .uint 0
  | .struct t values => .struct (m.nameOf t) (widenFields m (fieldsOf m t) values)
  | v => widenScalar v

def widenFields (m : Module) : List Field → List Host.Value → List (String × Value)
  | f :: fields, v :: values => (f.name, widen m f.ty v) :: widenFields m fields values
  | _, _ => []

end

section scalars

variable {k : ScalarKind} {v : Host.Value} {x : UInt32}

theorem widenScalar_of_bits (hv : v.bits? k = some x) : widenScalar v = .ofKind k x := by
  cases k <;> cases v <;> simp only [Host.Value.bits?, reduceCtorEq, Option.some.injEq] at hv <;>
    subst hv <;> rfl

theorem widen_scalar (m : Module) (ty : Ty) (hv : v.bits? k = some x) :
    widen m ty v = .ofKind k x := by
  rw [← widenScalar_of_bits hv]
  cases k <;> cases v <;> simp only [Host.Value.bits?, reduceCtorEq] at hv <;> rfl

theorem isKind_ofKind (k : ScalarKind) (x : UInt32) : (Value.ofKind k x).isKind k = true := by
  cases k <;> rfl

end scalars

section leaves

variable {m : Module} {ty : Ty} {k : ScalarKind} {n lane : Nat} {v : Host.Value} {x : UInt32}

theorem exists_scalar_of_lane (hl : ty.leaf? = some (k, n)) (hx : lane? ty v lane = some x) :
    ∃ u : Host.Value, u.bits? k = some x := by
  cases ty with
  | scalar k' =>
    obtain ⟨rfl, rfl⟩ : k' = k ∧ 1 = n := by simpa [Ty.leaf?] using hl
    exact ⟨v, hx⟩
  | vector k' lanes =>
    obtain ⟨rfl, rfl⟩ : k' = k ∧ lanes.toNat = n := by simpa [Ty.leaf?] using hl
    cases v with
    | vector vs =>
      simp only [lane?] at hx
      split at hx
      · obtain ⟨u, -, hu⟩ := Option.bind_eq_some_iff.mp hx
        exact ⟨u, hu⟩
      · cases hx
    | _ => simp [lane?] at hx
  | ref t =>
    obtain ⟨rfl, rfl⟩ : .u32 = k ∧ 1 = n := by simpa [Ty.leaf?] using hl
    exact ⟨.u32 x, rfl⟩
  | inline t => simp [Ty.leaf?] at hl
  | missing => simp [Ty.leaf?] at hl

theorem widen_vector {lanes : UInt8} {vs : List Host.Value} (hn : vs.length = lanes.toNat)
    (hone : lanes ≠ 1) :
    widen m (.vector k lanes) (.vector vs) = .vector (vs.map widenScalar) := by
  have hne : vs.length ≠ 1 := by
    intro h
    apply hone
    rw [← UInt8.toNat_inj, ← hn, h]
    rfl
  match vs with
  | [] => rfl
  | [u] => exact absurd rfl hne
  | u :: u' :: us => rfl

end leaves

theorem map_fst_zip {α : Type} {fields : List Field} {values : List Host.Value}
    (hlen : values.length = fields.length) (g : Field → α) :
    (fields.zip values).map (fun q => g q.1) = fields.map g := by
  rw [show (fun q : Field × Host.Value => g q.1) = g ∘ Prod.fst from rfl, ← List.map_map,
    List.map_fst_zip hlen.ge]

theorem widenFields_eq (m : Module) {fields : List Field} {values : List Host.Value} :
    widenFields m fields values =
      (fields.zip values).map fun p => (p.1.name, widen m p.1.ty p.2) := by
  induction fields generalizing values with
  | nil => simp [widenFields]
  | cons f fields ih =>
    cases values with
    | nil => simp [widenFields]
    | cons v values => simp [widenFields, ih]

theorem nameOf_eq {m : Module} {t : Handle} {d : TypeDef} (hd : m.def? t = some d) :
    m.nameOf t = d.name := by
  simp [Module.nameOf, hd]

theorem widen_struct {m : Module} {t : Handle} {d : TypeDef} {fields : List Field} (ty : Ty)
    (hd : m.def? t = some d) (hb : d.body = .struct fields) (values : List Host.Value) :
    widen m ty (.struct t values) =
      .struct d.name ((fields.zip values).map fun p => (p.1.name, widen m p.1.ty p.2)) := by
  obtain ⟨name, size, body⟩ := d
  obtain rfl : body = .struct fields := hb
  simp [widen, widenFields_eq, fieldsOf, hd, nameOf_eq hd]

end WordLayout.Shader
