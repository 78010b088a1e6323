import Mathlib
import WordLayout.Proofs.Sequence
import WordLayout.Proofs.Validation.Acceptance

namespace WordLayout

section lists

variable {α β : Type} {n : Nat} (σ : Equiv.Perm (Fin n))

def rearrange (l : List α) : List α :=
  if h : l.length = n then List.ofFn fun i => l.get (Fin.cast h.symm (σ i)) else l

theorem rearrange_perm (l : List α) : (rearrange σ l).Perm l := by
  by_cases h : l.length = n
  · subst h
    rw [rearrange, dif_pos rfl]
    have hperm := Equiv.Perm.ofFn_comp_perm σ l.get
    rwa [List.ofFn_get] at hperm
  · rw [rearrange, dif_neg h]

@[simp]
theorem length_rearrange (l : List α) : (rearrange σ l).length = l.length :=
  (rearrange_perm σ l).length_eq

theorem getElem?_rearrange {l : List α} (h : l.length = n) (i : Fin n) :
    (rearrange σ l)[i.val]? = l[(σ i).val]? := by
  subst h
  rw [rearrange, dif_pos rfl, List.getElem?_ofFn, dif_pos i.isLt,
    List.getElem?_eq_getElem (σ i).isLt]
  rfl

example : rearrange (Equiv.swap (0 : Fin 3) 2) ["a", "b", "c"] = ["c", "b", "a"] := by decide

theorem exists_pair_rearrange_iff {l : List α} {k : List β} (hl : l.length = n)
    (hk : k.length = n) {x : α} {y : β} :
    (∃ i : Nat, (rearrange σ l)[i]? = some x ∧ (rearrange σ k)[i]? = some y) ↔
      ∃ i : Nat, l[i]? = some x ∧ k[i]? = some y := by
  constructor
  · rintro ⟨i, hx, hy⟩
    obtain ⟨hi, -⟩ := List.getElem?_eq_some_iff.mp hx
    rw [length_rearrange, hl] at hi
    rw [getElem?_rearrange σ hl ⟨i, hi⟩] at hx
    rw [getElem?_rearrange σ hk ⟨i, hi⟩] at hy
    exact ⟨_, hx, hy⟩
  · rintro ⟨i, hx, hy⟩
    obtain ⟨hi, -⟩ := List.getElem?_eq_some_iff.mp hx
    rw [hl] at hi
    refine ⟨(σ.symm ⟨i, hi⟩).val, ?_, ?_⟩
    · rw [getElem?_rearrange σ hl, Equiv.apply_symm_apply]
      exact hx
    · rw [getElem?_rearrange σ hk, Equiv.apply_symm_apply]
      exact hy

end lists

inductive Body.Reordered : Body → Body → Prop
  | struct {fields fields' : List Field} (h : fields.Perm fields') :
      Reordered (.struct fields) (.struct fields')
  | union (variants : List Variant) : Reordered (.union variants) (.union variants)
  | missing : Reordered .missing .missing

structure TypeDef.Reordered (d d' : TypeDef) : Prop where
  name : d'.name = d.name
  size : d'.size = d.size
  body : d.body.Reordered d'.body

def Module.Reordered (m m' : Module) : Prop := List.Forall₂ TypeDef.Reordered m.defs m'.defs

theorem Body.Reordered.refl (b : Body) : b.Reordered b := by
  cases b with
  | struct fields => exact .struct (List.Perm.refl fields)
  | union variants => exact .union variants
  | missing => exact .missing

theorem Body.Reordered.symm {b b' : Body} (h : b.Reordered b') : b'.Reordered b := by
  cases h with
  | struct hp => exact .struct hp.symm
  | union variants => exact .union variants
  | missing => exact .missing

namespace TypeDef.Reordered

variable {d d' : TypeDef}

theorem symm (h : d.Reordered d') : d'.Reordered d :=
  ⟨h.name.symm, h.size.symm, h.body.symm⟩

theorem isUnion (h : d.Reordered d') : d'.isUnion = d.isUnion := by
  obtain ⟨-, -, hbody⟩ := h
  unfold TypeDef.isUnion
  generalize d.body = b, d'.body = b' at hbody
  cases hbody <;> rfl

end TypeDef.Reordered

namespace Module.Reordered

variable {m m' : Module} (hr : m.Reordered m')
include hr

theorem symm : m'.Reordered m := by
  apply List.Forall₂.flip
  exact hr.imp fun d d' h => h.symm

theorem def_at {i : Nat} {d : TypeDef} (hd : m.defs[i]? = some d) :
    ∃ d', m'.defs[i]? = some d' ∧ d.Reordered d' := by
  obtain ⟨hi, rfl⟩ := List.getElem?_eq_some_iff.mp hd
  have hi' : i < m'.defs.length := hr.length_eq ▸ hi
  exact ⟨_, List.getElem?_eq_getElem hi', hr.get hi hi'⟩

theorem names : m'.defs.map (·.name) = m.defs.map (·.name) :=
  map_eq_of_forall₂ hr fun _ _ h => h.name

theorem sizeOf (ty : Ty) : m'.sizeOf ty = m.sizeOf ty := by
  cases ty with
  | inline t =>
    cases hd : m.def? t with
    | some d =>
      obtain ⟨d', hd', hdd⟩ := hr.def_at hd
      have hd' : m'.def? t = some d' := hd'
      simp only [Module.sizeOf, hd, hd', Option.map_some, hdd.size]
    | none =>
      cases hd' : m'.def? t with
      | none => simp only [Module.sizeOf, hd, hd']
      | some d' =>
        obtain ⟨d, hd₀, -⟩ := hr.symm.def_at hd'
        rw [Module.def?, hd₀] at hd
        cases hd
  | _ => rfl

theorem known {ty : Ty} (hk : ty.Known m) : ty.Known m' := by
  cases ty with
  | inline t | ref t =>
    obtain ⟨d, hd, hu⟩ := hk
    obtain ⟨d', hd', hdd⟩ := hr.def_at hd
    exact ⟨d', hd', hdd.isUnion.trans hu⟩
  | scalar k => exact hk
  | vector k lanes => exact hk
  | missing => exact hk

theorem known_iff (ty : Ty) : ty.Known m' ↔ ty.Known m := ⟨hr.symm.known, hr.known⟩

end Module.Reordered

namespace Validation

theorem overlaps_eq_nil_of_perm {fields fields' : List Field} (hp : fields.Perm fields')
    (hx : ∀ f ∈ fields, f.stop < 2 ^ 32) (hpos : ∀ f ∈ fields, 0 < f.size.toNat)
    (h : overlaps fields = []) : overlaps fields' = [] := by
  have hdis := (apart_of_overlaps h hx).imp disjoint_of_apart
  apply overlaps_eq_nil
  · intro f hf
    exact hx f (hp.mem_iff.mpr hf)
  · intro f hf
    exact hpos f (hp.mem_iff.mpr hf)
  · exact (hp.pairwise_iff fun hab => Disjoint.symm hab).mp hdis

section modules

variable {m m' : Module} (hr : m.Reordered m')
include hr

theorem fieldFlaws_reordered {size : UInt32} {f : Field} (h : fieldFlaws m size f = []) :
    fieldFlaws m' size f = [] := by
  rw [fieldFlaws_eq_nil_iff, typeFlaw?_eq_none_iff] at h ⊢
  rwa [hr.known_iff, hr.sizeOf]

theorem payloadFlaws_reordered {size : UInt32} {p : Payload} (h : payloadFlaws m size p = []) :
    payloadFlaws m' size p = [] := by
  cases p with
  | struct offset t =>
    rw [payloadFlaws_eq_nil_iff, targetFlaw?_eq_none_iff] at h ⊢
    rw [hr.sizeOf]
    exact ⟨(hr.known_iff (.inline t)).mpr h.1, h.2⟩
  | _ => rfl

theorem structErrors_reordered {d d' : TypeDef} (hsize : d'.size = d.size)
    {fields fields' : List Field} (hp : fields.Perm fields')
    (hx : ∀ f ∈ fields, f.stop < 2 ^ 32) (hpos : ∀ f ∈ fields, 0 < f.size.toNat)
    (h : structErrors m d fields = []) : structErrors m' d' fields' = [] := by
  obtain ⟨hne, hnames, hflaws, hover⟩ := (structErrors_eq_nil_iff m d fields).mp h
  apply (structErrors_eq_nil_iff m' d' fields').mpr
  refine ⟨?_, ?_, ?_, overlaps_eq_nil_of_perm hp hx hpos hover⟩
  · rintro rfl
    exact hne hp.eq_nil
  · exact (hp.map (·.name)).nodup_iff.mp hnames
  · intro f hf
    rw [hsize]
    exact fieldFlaws_reordered hr (hflaws f (hp.mem_iff.mpr hf))

theorem unionErrors_reordered {d d' : TypeDef} (hsize : d'.size = d.size)
    {variants : List Variant} (h : unionErrors m d variants = []) :
    unionErrors m' d' variants = [] := by
  obtain ⟨hne, hroom, hnames, hflaws⟩ := (unionErrors_eq_nil_iff m d variants).mp h
  apply (unionErrors_eq_nil_iff m' d' variants).mpr
  rw [hsize]
  refine ⟨hne, hroom, hnames, ?_⟩
  intro v hv
  exact payloadFlaws_reordered hr (hflaws v hv)

theorem mem_dependencies_reordered {d d' : TypeDef} (hdd : d.Reordered d') {t : Handle}
    (ht : t ∈ dependencies m' d') : t ∈ dependencies m d := by
  obtain ⟨-, -, hbody⟩ := hdd
  generalize hb : d.body = b, hb' : d'.body = b' at hbody
  cases hbody with
  | struct hp =>
    obtain ⟨f, hf, hty, hk, hsize⟩ := (mem_dependencies_struct_iff hb').mp ht
    rw [hr.known_iff] at hk
    rw [hr.sizeOf] at hsize
    exact (mem_dependencies_struct_iff hb).mpr ⟨f, hp.mem_iff.mpr hf, hty, hk, hsize⟩
  | union variants =>
    obtain ⟨v, hv, offset, hpay, hk⟩ := (mem_dependencies_union_iff hb').mp ht
    rw [hr.known_iff] at hk
    exact (mem_dependencies_union_iff hb).mpr ⟨v, hv, offset, hpay, hk⟩
  | missing => simp [dependencies, hb'] at ht

theorem exactFields_reordered (hx : m.ExactFields) : m'.ExactFields := by
  intro d' hd' e he
  obtain ⟨i, hi⟩ := List.getElem?_of_mem hd'
  obtain ⟨d, hd, hdd⟩ := hr.symm.def_at hi
  apply hx d (List.mem_of_getElem? hd)
  obtain ⟨-, -, hbody⟩ := hdd
  unfold fieldEnds at he ⊢
  generalize d.body = b, d'.body = b' at hbody he ⊢
  cases hbody with
  | struct hp => exact (hp.map Field.stop).mem_iff.mp he
  | union _ | missing => exact he

section accepted

variable (hv : m.validate = []) (hx : m.ExactFields)
include hv hx

theorem defErrors_reordered {i : Nat} {d d' : TypeDef} (hd : m.defs[i]? = some d)
    (hdd : d.Reordered d') : defErrors m' d' = [] := by
  have hmem := List.mem_of_getElem? hd
  obtain ⟨hsize, hbody⟩ := List.append_eq_nil_iff.mp (defErrors_eq_nil hv hmem)
  rw [defErrors, List.append_eq_nil_iff]
  constructor
  · rw [sizeErrors_eq_nil_iff] at hsize ⊢
    rwa [hdd.size]
  · obtain ⟨-, hds, hdb⟩ := hdd
    generalize hb : d.body = b, hb' : d'.body = b' at hdb hbody ⊢
    cases hdb with
    | struct hp =>
      have hs := structSound_of_validate hv hx hd hb
      apply structErrors_reordered hr hds hp _ _ hbody
      · intro f hf
        exact hx.field hmem hb hf
      · intro f hf
        exact (structsSound_of_validate hv hx).field_pos hs hf
    | union variants => exact unionErrors_reordered hr hds hbody
    | missing => cases hbody

theorem validate_reordered : m'.validate = [] := by
  obtain ⟨hnames, -, hearlier⟩ := validate_eq_nil_iff.mp hv
  apply validate_eq_nil_iff.mpr
  refine ⟨?_, ?_, ?_⟩
  · rwa [hr.names]
  · intro d' hd'
    obtain ⟨i, hi⟩ := List.getElem?_of_mem hd'
    obtain ⟨d, hd, hdd⟩ := hr.symm.def_at hi
    exact defErrors_reordered hr hv hx hd hdd.symm
  · intro i d' hi t ht
    obtain ⟨d, hd, hdd⟩ := hr.symm.def_at hi
    exact hearlier i d hd t (mem_dependencies_reordered hr hdd.symm ht)

end accepted

end modules

end Validation

def Module.withFields (m : Module) (i : Nat) (fields : List Field) : Module :=
  { m with defs := m.defs.modify i fun d => { d with body := .struct fields } }

namespace Module

variable {m : Module} {i : Nat} {d : TypeDef} {fields fields' : List Field}

theorem defs_withFields_self (hd : m.defs[i]? = some d) :
    (m.withFields i fields).defs[i]? = some { d with body := .struct fields } := by
  rw [withFields, List.getElem?_modify_eq, hd]
  rfl

theorem defs_withFields_of_ne {j : Nat} (hij : i ≠ j) :
    (m.withFields i fields).defs[j]? = m.defs[j]? := by
  unfold withFields
  exact List.getElem?_modify_ne _ _ hij

theorem reordered_withFields (hd : m.defs[i]? = some d) (hb : d.body = .struct fields)
    (hp : fields.Perm fields') : m.Reordered (m.withFields i fields') := by
  apply List.forall₂_iff_get.mpr
  refine ⟨(List.length_modify _ _ _).symm, ?_⟩
  intro j hj hj'
  simp only [withFields, List.get_eq_getElem, List.getElem_modify]
  by_cases hij : i = j
  · subst hij
    obtain rfl := Option.some.inj ((List.getElem?_eq_getElem hj).symm.trans hd)
    rw [if_pos rfl]
    refine ⟨rfl, rfl, ?_⟩
    rw [hb]
    exact .struct hp
  · rw [if_neg hij]
    exact ⟨rfl, rfl, Body.Reordered.refl _⟩

end Module

end WordLayout
