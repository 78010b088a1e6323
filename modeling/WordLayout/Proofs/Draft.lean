import Mathlib
import WordLayout.Draft
import WordLayout.Proofs.Sequence
import WordLayout.Proofs.Validation.Acceptance

namespace WordLayout

def nextMultiple (v align : Nat) : Nat := (v + align - 1) / align * align

theorem nextMultiple_isLeast {align : Nat} (ha : 0 < align) (v : Nat) :
    IsLeast {o | v ≤ o ∧ align ∣ o} (nextMultiple v align) := by
  have hmod := Nat.mod_lt (v + align - 1) ha
  have hdiv := Nat.div_add_mod (v + align - 1) align
  rw [Nat.mul_comm] at hdiv
  refine ⟨⟨?_, Nat.dvd_mul_left _ _⟩, ?_⟩
  · rw [nextMultiple]
    omega
  · rintro o ⟨hle, k, rfl⟩
    rw [nextMultiple, Nat.mul_comm]
    apply Nat.mul_le_mul_left
    apply Nat.le_of_lt_succ
    rw [Nat.div_lt_iff_lt_mul ha, Nat.succ_mul, Nat.mul_comm k]
    omega

theorem le_nextMultiple {align : Nat} (ha : 0 < align) (v : Nat) : v ≤ nextMultiple v align :=
  (nextMultiple_isLeast ha v).1.1

namespace TypeExpr

def Proper : TypeExpr → Prop
  | .scalar k => k.isKnown = true
  | .vector k lanes => k.isKnown = true ∧ 1 ≤ lanes.toNat ∧ lanes.toNat ≤ 4
  | .inline _ | .ref _ => True

def FieldTarget (earlier all : List (String × Bool)) : TypeExpr → Prop
  | .inline name => (name, false) ∈ earlier
  | .ref name => (name, false) ∈ all
  | .scalar _ | .vector _ _ => True

def PayloadTarget (earlier all : List (String × Bool)) : TypeExpr → Prop
  | .inline name => ∃ u, (name, u) ∈ earlier
  | .ref name => ∃ u, (name, u) ∈ all
  | .scalar _ | .vector _ _ => True

instance (earlier all : List (String × Bool)) : DecidablePred (FieldTarget earlier all)
  | .inline name => inferInstanceAs (Decidable ((name, false) ∈ earlier))
  | .ref name => inferInstanceAs (Decidable ((name, false) ∈ all))
  | .scalar _ | .vector _ _ => instDecidableTrue

instance (earlier all : List (String × Bool)) : DecidablePred (PayloadTarget earlier all)
  | .inline name => inferInstanceAs (Decidable (∃ u, (name, u) ∈ earlier))
  | .ref name => inferInstanceAs (Decidable (∃ u, (name, u) ∈ all))
  | .scalar _ | .vector _ _ => instDecidableTrue

theorem FieldTarget.payload {earlier all : List (String × Bool)} {ty : TypeExpr}
    (h : ty.FieldTarget earlier all) : ty.PayloadTarget earlier all := by
  cases ty with
  | scalar | vector => trivial
  | inline | ref => exact ⟨false, h⟩

def bytes (sizes : List (String × Nat)) : TypeExpr → Nat
  | .scalar k => k.size.toNat
  | .vector k lanes => k.size.toNat * lanes.toNat
  | .ref _ => 4
  | .inline name => (sizes.lookup name).getD 0

def align : TypeExpr → Nat
  | .scalar k | .vector k _ => k.size.toNat
  | .inline _ | .ref _ => 4

theorem align_pos (ty : TypeExpr) : 0 < ty.align := by
  cases ty with
  | scalar k | vector k => exact k.size_pos
  | inline | ref => exact Nat.succ_pos 3

theorem align_le (ty : TypeExpr) : ty.align ≤ 4 := by
  cases ty with
  | scalar k | vector k => exact k.size_le_four
  | inline | ref => exact le_rfl

def Denotes (m : Module) : TypeExpr → Ty → Prop
  | .scalar k, ty => ty = .scalar k
  | .vector k lanes, ty => ty = .vector k lanes
  | .inline name, ty => ∃ h e, m.def? h = some e ∧ e.name = name ∧ ty = .inline h
  | .ref name, ty => ∃ h e, m.def? h = some e ∧ e.name = name ∧ ty = .ref h

theorem Denotes.of_inline {m : Module} {ty : TypeExpr} {h : Handle}
    (hty : ty.Denotes m (.inline h)) : ∃ e, m.def? h = some e ∧ ty = .inline e.name := by
  cases ty with
  | scalar | vector => cases hty
  | inline name =>
    obtain ⟨_, e, he, rfl, ⟨⟩⟩ := hty
    exact ⟨e, he, rfl⟩
  | ref name =>
    obtain ⟨_, _, _, _, ⟨⟩⟩ := hty

end TypeExpr

def reach (sizes : List (String × Nat)) (start : Nat) (tys : List TypeExpr) : Nat :=
  tys.foldl (fun cursor ty => nextMultiple cursor ty.align + ty.bytes sizes) start

theorem reach_cons (sizes : List (String × Nat)) (start : Nat) (ty : TypeExpr)
    (tys : List TypeExpr) : reach sizes start (ty :: tys) =
      reach sizes (nextMultiple start ty.align + ty.bytes sizes) tys := rfl

theorem le_reach (sizes : List (String × Nat)) (start : Nat) (tys : List TypeExpr) :
    start ≤ reach sizes start tys := by
  induction tys generalizing start with
  | nil => exact le_rfl
  | cons ty tys ih =>
    have hnext := le_nextMultiple ty.align_pos start
    exact (hnext.trans (Nat.le_add_right _ _)).trans (ih _)

section rows

def rowEnd (start : Nat) (items : List PayloadItem) : Nat :=
  items.foldl (fun _ p => p.offset.toNat + p.size.toNat) start

/-- The items have these types and stand one behind the other, each at the least place from the end
of the one before it that its type can have. -/
inductive Tight (m : Module) : Nat → List TypeExpr → List PayloadItem → Prop
  | nil (start : Nat) : Tight m start [] []
  | cons {start : Nat} {ty : TypeExpr} {tys : List TypeExpr} {p : PayloadItem}
      {ps : List PayloadItem} (hty : ty.Denotes m p.ty) (hsize : p.size = m.sizeOf p.ty)
      (hp : IsLeast {o | start ≤ o ∧ p.ty.FitsAt o} p.offset.toNat)
      (hrest : Tight m (p.offset.toNat + p.size.toNat) tys ps) : Tight m start (ty :: tys) (p :: ps)

def Payload.items (m : Module) : Payload → List PayloadItem
  | .struct offset t => [⟨offset, .inline t, m.sizeOf (.inline t)⟩]
  | .unsupported items _ => items
  | .empty | .missing => []

def Field.item (f : Field) : PayloadItem := ⟨f.offset, f.ty, f.size⟩

variable {m : Module} {start : Nat} {tys : List TypeExpr} {items : List PayloadItem}

theorem foldl_max_le_iff {α : Type} (l : List α) (g : α → Nat) (a n : Nat) :
    l.foldl (fun n x => max n (g x)) a ≤ n ↔ a ≤ n ∧ ∀ x ∈ l, g x ≤ n := by
  induction l generalizing a with
  | nil => simp
  | cons x l ih => rw [List.foldl_cons, ih, List.forall_mem_cons, max_le_iff, and_assoc]

theorem Tight.bounds (h : Tight m start tys items) :
    start ≤ rowEnd start items ∧
      ∀ p ∈ items, start ≤ p.offset.toNat ∧
        p.offset.toNat + p.size.toNat ≤ rowEnd start items := by
  induction h with
  | nil start => exact ⟨le_rfl, by simp⟩
  | @cons start ty tys p ps hty hsize hp hrest ih =>
    have hle := hp.1.1
    have hend : rowEnd start (p :: ps) = rowEnd (p.offset.toNat + p.size.toNat) ps := rfl
    rw [hend]
    refine ⟨by omega, ?_⟩
    rw [List.forall_mem_cons]
    refine ⟨⟨hle, ih.1⟩, fun q hq => ?_⟩
    have hq' := ih.2 q hq
    exact ⟨by omega, hq'.2⟩

theorem Tight.apart (h : Tight m start tys items) :
    items.Pairwise fun p q => p.offset.toNat + p.size.toNat ≤ q.offset.toNat := by
  induction h with
  | nil start => exact .nil
  | cons hty hsize hp hrest ih => exact .cons (fun q hq => (hrest.bounds.2 q hq).1) ih

theorem Tight.each (h : Tight m start tys items) :
    ∀ p ∈ items, p.ty.FitsAt p.offset.toNat ∧ p.size = m.sizeOf p.ty := by
  induction h with
  | nil start => simp
  | cons hty hsize hp hrest ih => exact List.forall_mem_cons.mpr ⟨⟨hp.1.2, hsize⟩, ih⟩

end rows

def FieldDraft.item (f : FieldDraft) : PayloadDraft := ⟨f.offset, f.ty⟩

inductive Row (sizes : List (String × Nat)) : Nat → List PayloadDraft → Prop
  | nil (start : Nat) : Row sizes start []
  | cons {start : Nat} {p : PayloadDraft} {ps : List PayloadDraft}
      (hp : p.offset.toNat = nextMultiple start p.ty.align)
      (hrest : Row sizes (p.offset.toNat + p.ty.bytes sizes) ps) : Row sizes start (p :: ps)

structure StructPlaced (sizes : List (String × Nat)) (earlier all : List (String × Bool))
    (size : UInt32) (fields : List FieldDraft) : Prop where
  nonempty : fields ≠ []
  names : (fields.map (·.name)).Nodup
  types : ∀ f ∈ fields, f.size = 0 ∧ f.ty.Proper ∧ f.ty.FieldTarget earlier all
  row : Row sizes 0 (fields.map FieldDraft.item)
  size_eq : size.toNat = nextMultiple (reach sizes 0 (fields.map (·.ty))) 4

structure UnionPlaced (sizes : List (String × Nat)) (earlier all : List (String × Bool))
    (size : UInt32) (variants : List VariantDraft) : Prop where
  nonempty : variants ≠ []
  names : (variants.map (·.name)).Nodup
  types : ∀ v ∈ variants, ∀ p ∈ v.payload, p.ty.PayloadTarget earlier all
  rows : ∀ v ∈ variants, Row sizes 4 v.payload
  size_eq : size.toNat = nextMultiple
    (variants.foldl (fun n v => max n (reach sizes 4 (v.payload.map (·.ty)))) 4) 4

def BodyDraft.Placed (sizes : List (String × Nat)) (earlier all : List (String × Bool))
    (size : UInt32) : BodyDraft → Prop
  | .struct fields => StructPlaced sizes earlier all size fields
  | .union variants => UnionPlaced sizes earlier all size variants

namespace Draft

def signature (s : DefDraft) : String × Bool := (s.name, isUnion s)

def sizeTable (specs : List DefDraft) : List (String × Nat) :=
  (specs.map fun s => (s.name, s.size.toNat)).reverse

structure Placed (d : Draft) : Prop where
  names : (d.defs.map (·.name)).Nodup
  count : d.defs.length ≤ 2 ^ 32
  bodies : ∀ (i : Nat) (s : DefDraft), d.defs[i]? = some s →
    s.body.Placed (sizeTable (d.defs.take i)) ((d.defs.take i).map signature)
      (d.defs.map signature) s.size

section payloads

variable {d : Draft} {specs : List PayloadDraft} {items : List PayloadItem}

theorem payloadOf_eq_empty_iff : d.payloadOf specs items = .empty ↔ items = [] := by
  unfold payloadOf
  split
  · simp
  · split
    · split <;> simp
    · simp
  · rename_i hne _
    simpa using hne

theorem payloadOf_eq_struct_iff {offset : UInt32} {h : Handle} :
    d.payloadOf specs items = .struct offset h ↔ specs ≠ [] ∧ ∃ q, items = [q] ∧
      q.offset = offset ∧ q.ty = .inline h ∧ (d.defs[h.toNat]?.map isUnion).getD false = false := by
  constructor
  · intro h
    unfold payloadOf at h
    split at h
    · cases h
    · rename_i q
      split at h
      · rename_i hty
        split_ifs at h with hu
        cases h
        exact ⟨List.cons_ne_nil _ _, q, rfl, rfl, hty, by simpa using hu⟩
      · cases h
    · cases h
  · rintro ⟨hne, q, rfl, rfl, hty, hu⟩
    obtain ⟨spec, rest, rfl⟩ := List.exists_cons_of_ne_nil hne
    simp only [payloadOf, hty, hu, Bool.false_eq_true, if_false]

theorem payloadOf_cases (d : Draft) (specs : List PayloadDraft) (items : List PayloadItem) :
    d.payloadOf specs items = .empty ∨
      (∃ offset h, d.payloadOf specs items = .struct offset h) ∨
        ∃ reason, d.payloadOf specs items = .unsupported items reason := by
  unfold payloadOf
  split
  · exact .inl rfl
  · split
    · split
      · exact .inr (.inr ⟨_, rfl⟩)
      · exact .inr (.inl ⟨_, _, rfl⟩)
    · exact .inr (.inr ⟨_, rfl⟩)
  · exact .inr (.inr ⟨_, rfl⟩)

theorem items_payloadOf (hsize : ∀ q ∈ items, q.size = d.resolved.sizeOf q.ty) :
    (d.payloadOf specs items).items d.resolved = items := by
  rcases payloadOf_cases d specs items with h | ⟨offset, t, h⟩ | ⟨reason, h⟩
  · rw [h, payloadOf_eq_empty_iff.mp h]
    rfl
  · obtain ⟨-, q, rfl, rfl, hty, -⟩ := payloadOf_eq_struct_iff.mp h
    have hq := hsize q (List.mem_singleton_self q)
    rw [h, Payload.items, ← hty, ← hq]
  · rw [h]
    rfl

end payloads

section resolution

variable {d : Draft}

theorem toNat_handle (hc : d.defs.length ≤ 2 ^ 32) {i : Nat} (hi : i < d.defs.length) :
    (UInt32.ofNat i).toNat = i :=
  UInt32.toNat_ofNat_of_lt' (by change i < 2 ^ 32; omega)

theorem def?_resolved (hc : d.defs.length ≤ 2 ^ 32) {i : Nat} {s : DefDraft}
    (hs : d.defs[i]? = some s) :
    d.resolved.def? (UInt32.ofNat i) = some ⟨s.name, s.size, d.resolveBody s.body⟩ := by
  obtain ⟨hi, -⟩ := List.getElem?_eq_some_iff.mp hs
  simp [Module.def?, resolved, toNat_handle hc hi, hs]

theorem isUnion_resolveBody (s : DefDraft) :
    TypeDef.isUnion ⟨s.name, s.size, d.resolveBody s.body⟩ = isUnion s := by
  unfold TypeDef.isUnion isUnion resolveBody
  cases s.body <;> rfl

theorem isUnion_of_def? {h : Handle} {e : TypeDef} (he : d.resolved.def? h = some e) :
    e.isUnion = (d.defs[h.toNat]?.map isUnion).getD false := by
  rw [Module.def?, resolved, List.getElem?_map, Option.map_eq_some_iff] at he
  obtain ⟨s, hs, rfl⟩ := he
  rw [isUnion_resolveBody, hs]
  rfl

theorem sizeOf_skeleton (ty : Ty) : d.skeleton.sizeOf ty = d.resolved.sizeOf ty := by
  cases ty with
  | inline h => simp [Module.sizeOf, Module.def?, skeleton, resolved, Function.comp_def]
  | _ => rfl

theorem lookup_index (hn : (d.defs.map (·.name)).Nodup) {i : Nat} {s : DefDraft}
    (hs : d.defs[i]? = some s) : d.index.lookup s.name = some (UInt32.ofNat i) := by
  have hnames : (d.defs.zipIdx.map fun q => q.1.name) = d.defs.map (·.name) := by
    rw [← List.zipIdx_map_fst 0 d.defs, List.map_map]
    simp [Function.comp_def]
  exact lookup_of_mem (a := (s, i)) (g := fun q => UInt32.ofNat q.2) (hnames ▸ hn)
    (List.mem_zipIdx_iff_getElem?.mpr hs)

theorem lookup_sizeTable {specs : List DefDraft} (hn : (specs.map (·.name)).Nodup) {s : DefDraft}
    (hs : s ∈ specs) : (sizeTable specs).lookup s.name = some s.size.toNat := by
  have hrev : (specs.reverse.map (·.name)).Nodup := by
    rw [List.map_reverse]
    exact List.nodup_reverse.mpr hn
  rw [sizeTable, ← List.map_reverse]
  exact lookup_of_mem (a := s) (g := fun s : DefDraft => s.size.toNat) hrev
    (List.mem_reverse.mpr hs)

theorem exists_of_signature {i : Nat} {name : String} {u : Bool}
    (h : (name, u) ∈ (d.defs.take i).map signature) :
    ∃ j s, j < i ∧ d.defs[j]? = some s ∧ s ∈ d.defs.take i ∧ s.name = name ∧ isUnion s = u := by
  obtain ⟨s, hs, heq⟩ := List.mem_map.mp h
  obtain ⟨j, hj⟩ := List.getElem?_of_mem hs
  rw [List.getElem?_take, Option.ite_none_right_eq_some] at hj
  exact ⟨j, s, hj.1, hj.2, hs, congrArg Prod.fst heq, congrArg Prod.snd heq⟩

structure Resolved (d : Draft) (i : Nat) (ty : TypeExpr) (ty' : Ty) : Prop where
  resolve_eq : d.resolve ty = .ok ty'
  denotes : ty.Denotes d.resolved ty'
  bytes_eq : (d.resolved.sizeOf ty').toNat = ty.bytes (sizeTable (d.defs.take i))
  fits_iff : ∀ o, ty'.FitsAt o ↔ ty.align ∣ o
  earlier : ∀ t, ty' = .inline t → t < UInt32.ofNat i

variable (hd : d.Placed) {i : Nat} (hi : i < d.defs.length) {ty : TypeExpr} {ty' : Ty}
include hd hi

theorem exists_resolved
    (ht : ty.PayloadTarget ((d.defs.take i).map signature) (d.defs.map signature)) :
    ∃ ty', Resolved d i ty ty' := by
  cases ty with
  | scalar k => exact ⟨.scalar k, rfl, rfl, rfl, fun _ => Iff.rfl, by simp⟩
  | vector k lanes =>
    refine ⟨.vector k lanes, rfl, rfl, ?_, fun _ => Iff.rfl, by simp⟩
    rw [sizeOf_leaf d.resolved rfl, TypeExpr.bytes, Nat.mul_comm]
  | inline name =>
    obtain ⟨u, hu⟩ := ht
    obtain ⟨j, s, hji, hs, hmem, rfl, -⟩ := exists_of_signature hu
    have hdef := def?_resolved hd.count hs
    refine ⟨.inline (UInt32.ofNat j), ?_, ⟨_, _, hdef, rfl, rfl⟩, ?_, fun _ => Iff.rfl, ?_⟩
    · rw [resolve, lookup_index hd.names hs]
    · have hn : ((d.defs.take i).map (·.name)).Nodup :=
        hd.names.sublist ((List.take_sublist i d.defs).map _)
      rw [TypeExpr.bytes, lookup_sizeTable hn hmem, Module.sizeOf, hdef]
      rfl
    · rintro t ⟨⟩
      rw [UInt32.lt_iff_toNat_lt, toNat_handle hd.count hi, toNat_handle hd.count (by omega)]
      exact hji
  | ref name =>
    obtain ⟨u, hu⟩ := ht
    rw [← List.take_length (l := d.defs)] at hu
    obtain ⟨j, s, -, hs, -, rfl, -⟩ := exists_of_signature hu
    refine ⟨.ref (UInt32.ofNat j), ?_, ⟨_, _, def?_resolved hd.count hs, rfl, rfl⟩, rfl,
      fun _ => Iff.rfl, by simp⟩
    rw [resolve, lookup_index hd.names hs]

omit hi in
theorem Resolved.known (hr : Resolved d i ty ty') (hp : ty.Proper)
    (ht : ty.FieldTarget ((d.defs.take i).map signature) (d.defs.map signature)) :
    ty'.Known d.resolved := by
  have heq := hr.resolve_eq
  cases ty with
  | scalar k | vector k lanes =>
    obtain rfl := Except.ok.inj heq
    exact hp
  | inline name =>
    obtain ⟨j, s, -, hs, -, rfl, hu⟩ := exists_of_signature ht
    rw [resolve, lookup_index hd.names hs] at heq
    obtain rfl := Except.ok.inj heq
    exact ⟨_, def?_resolved hd.count hs, (isUnion_resolveBody s).trans hu⟩
  | ref name =>
    rw [TypeExpr.FieldTarget, ← List.take_length (l := d.defs)] at ht
    obtain ⟨j, s, -, hs, -, rfl, hu⟩ := exists_of_signature ht
    rw [resolve, lookup_index hd.names hs] at heq
    obtain rfl := Except.ok.inj heq
    exact ⟨_, def?_resolved hd.count hs, (isUnion_resolveBody s).trans hu⟩

end resolution

section contents

variable {d : Draft}

theorem filterMap_value? {ε α β : Type} {f : α → Except ε β} {xs : List α} {ys : List β}
    (h : List.Forall₂ (fun x y => f x = .ok y) xs ys) :
    xs.filterMap (fun x => value? (f x)) = ys := by
  induction h with
  | nil => rfl
  | cons hxy _ ih => rw [List.filterMap_cons, hxy, value?, ih]

theorem resolveBody_struct {fields : List FieldDraft} {gs : List Field}
    (h : List.Forall₂ (fun f g => d.resolveField f = .ok g) fields gs) :
    d.resolveBody (.struct fields) = .struct gs := by
  rw [resolveBody, filterMap_value? h]

def VariantResolved (d : Draft) (v : VariantDraft) (w : Variant) : Prop :=
  w.name = v.name ∧ d.resolvePayload v.payload = .ok w.payload

theorem resolveBody_union {variants : List VariantDraft} {ws : List Variant}
    (h : List.Forall₂ d.VariantResolved variants ws) :
    d.resolveBody (.union variants) = .union ws := by
  have hmap : variants.map (fun v => (⟨v.name, (value? (d.resolvePayload v.payload)).getD .empty⟩ :
      Variant)) = ws := by
    rw [← List.forall₂_eq_eq_eq, List.forall₂_map_left_iff]
    refine h.imp fun v w hw => ?_
    rw [hw.2, value?, Option.getD_some, ← hw.1]
  rw [resolveBody, hmap]

variable {s : DefDraft} (hu : d.unknownNames s = [])
include hu

theorem struct_resolved {fields : List FieldDraft} (hb : s.body = .struct fields) :
    ∃ gs, List.Forall₂ (fun f g => d.resolveField f = .ok g) fields gs ∧
      d.resolveBody s.body = .struct gs := by
  have hfield : ∀ f ∈ fields, ∃ g, d.resolveField f = .ok g := by
    intro f hf
    simp only [unknownNames, hb, List.filterMap_eq_nil_iff] at hu
    have hnone := hu f hf
    cases h : d.resolveField f with
    | ok g => exact ⟨g, rfl⟩
    | error name => simp [h] at hnone
  obtain ⟨gs, hgs⟩ := exists_forall₂ fields hfield
  exact ⟨gs, hgs, hb ▸ resolveBody_struct hgs⟩

theorem union_resolved {variants : List VariantDraft} (hb : s.body = .union variants) :
    ∃ ws, List.Forall₂ d.VariantResolved variants ws ∧ d.resolveBody s.body = .union ws := by
  have hvariant : ∀ v ∈ variants, ∃ w, d.VariantResolved v w := by
    intro v hv
    simp only [unknownNames, hb, List.filterMap_eq_nil_iff] at hu
    have hnone := hu v hv
    cases h : d.resolvePayload v.payload with
    | ok payload => exact ⟨⟨v.name, payload⟩, rfl, h⟩
    | error name => simp [h] at hnone
  obtain ⟨ws, hws⟩ := exists_forall₂ variants hvariant
  exact ⟨ws, hws, hb ▸ resolveBody_union hws⟩

end contents

section members

variable {d : Draft} {i : Nat}

structure ItemOf (d : Draft) (i : Nat) (p : PayloadDraft) (q : PayloadItem) : Prop where
  offset_eq : q.offset = p.offset
  resolved : Resolved d i p.ty q.ty
  size_eq : q.size = d.resolved.sizeOf q.ty

theorem tight_of_row {start : Nat} {ps : List PayloadDraft} {qs : List PayloadItem}
    (hrow : Row (sizeTable (d.defs.take i)) start ps) (hqs : List.Forall₂ (ItemOf d i) ps qs) :
    Tight d.resolved start (ps.map (·.ty)) qs ∧
      rowEnd start qs = reach (sizeTable (d.defs.take i)) start (ps.map (·.ty)) := by
  induction hrow generalizing qs with
  | nil start =>
    cases hqs
    exact ⟨.nil start, rfl⟩
  | @cons start p ps hp hrest ih =>
    cases hqs with
    | @cons _ q _ qs hq hqs =>
      have hbytes : q.size.toNat = p.ty.bytes (sizeTable (d.defs.take i)) := by
        rw [hq.size_eq, hq.resolved.bytes_eq]
      obtain ⟨htight, hend⟩ := ih hqs
      rw [← hq.offset_eq, ← hbytes] at htight hend
      refine ⟨.cons hq.resolved.denotes hq.size_eq ?_ htight, ?_⟩
      · rw [hq.offset_eq, hp]
        simp only [hq.resolved.fits_iff]
        exact nextMultiple_isLeast p.ty.align_pos start
      · rw [List.map_cons, reach_cons, ← hp, ← hq.offset_eq, ← hbytes]
        exact hend

theorem resolveField_eq {f : FieldDraft} {ty : Ty} (hr : Resolved d i f.ty ty) (hz : f.size = 0) :
    d.resolveField f = .ok ⟨f.name, f.offset, ty, d.resolved.sizeOf ty⟩ := by
  rw [resolveField, hr.resolve_eq, ok_bind, if_pos hz, sizeOf_skeleton]
  rfl

theorem ItemOf.resolveItem_eq {p : PayloadDraft} {q : PayloadItem} (h : ItemOf d i p q) :
    d.resolveItem p = .ok q := by
  rw [resolveItem, h.resolved.resolve_eq, ok_bind, sizeOf_skeleton, ← h.offset_eq, ← h.size_eq]
  rfl

theorem known_of_payloadOf {ps : List PayloadDraft} {qs : List PayloadItem}
    (hqs : List.Forall₂ (ItemOf d i) ps qs) {offset : UInt32} {t : Handle}
    (h : d.payloadOf ps qs = .struct offset t) : (Ty.inline t).Known d.resolved := by
  obtain ⟨-, q, rfl, -, hty, hu⟩ := payloadOf_eq_struct_iff.mp h
  obtain ⟨p, -, hq⟩ := exists_left_of_mem hqs (List.mem_singleton_self q)
  have hden := hq.resolved.denotes
  rw [hty] at hden
  obtain ⟨e, he, -⟩ := hden.of_inline
  exact ⟨e, he, (isUnion_of_def? he).trans hu⟩

structure FieldOf (d : Draft) (i : Nat) (f : FieldDraft) (g : Field) : Prop where
  resolve_eq : d.resolveField f = .ok g
  name_eq : g.name = f.name
  item : ItemOf d i f.item g.item
  known : g.ty.Known d.resolved

variable (hd : d.Placed) {s : DefDraft} (hs : d.defs[i]? = some s)
include hd hs

theorem exists_fields {fields : List FieldDraft} (hb : s.body = .struct fields) :
    ∃ gs, List.Forall₂ (FieldOf d i) fields gs ∧ d.resolveBody s.body = .struct gs := by
  have hp := hd.bodies i s hs
  rw [hb] at hp
  obtain ⟨hi, -⟩ := List.getElem?_eq_some_iff.mp hs
  have hfield : ∀ f ∈ fields, ∃ g, FieldOf d i f g := by
    intro f hf
    obtain ⟨hz, hproper, htarget⟩ := hp.types f hf
    obtain ⟨ty, hr⟩ := exists_resolved hd hi htarget.payload
    exact ⟨_, resolveField_eq hr hz, rfl, ⟨rfl, hr, rfl⟩, hr.known hd hproper htarget⟩
  obtain ⟨gs, hgs⟩ := exists_forall₂ fields hfield
  refine ⟨gs, hgs, ?_⟩
  rw [hb]
  exact resolveBody_struct (hgs.imp fun _ _ h => h.resolve_eq)

structure VariantOf (d : Draft) (i : Nat) (v : VariantDraft) (w : Variant) : Prop where
  name_eq : w.name = v.name
  items : List.Forall₂ (ItemOf d i) v.payload (w.payload.items d.resolved)
  resolve_eq : d.resolvePayload v.payload = .ok w.payload
  known : ∀ offset t, w.payload = .struct offset t → (Ty.inline t).Known d.resolved

theorem exists_variants {variants : List VariantDraft} (hb : s.body = .union variants) :
    ∃ ws, List.Forall₂ (VariantOf d i) variants ws ∧ d.resolveBody s.body = .union ws := by
  have hp := hd.bodies i s hs
  rw [hb] at hp
  obtain ⟨hi, -⟩ := List.getElem?_eq_some_iff.mp hs
  have hvariant : ∀ v ∈ variants, ∃ w, VariantOf d i v w := by
    intro v hv
    have hitem : ∀ p ∈ v.payload, ∃ q, ItemOf d i p q := by
      intro p hpv
      obtain ⟨ty, hr⟩ := exists_resolved hd hi (hp.types v hv p hpv)
      exact ⟨⟨p.offset, ty, d.resolved.sizeOf ty⟩, rfl, hr, rfl⟩
    obtain ⟨qs, hqs⟩ := exists_forall₂ v.payload hitem
    have hmap : v.payload.mapM d.resolveItem = .ok qs :=
      mapM_eq_ok_iff.mpr (hqs.imp fun _ _ h => h.resolveItem_eq)
    have hsized : ∀ q ∈ qs, q.size = d.resolved.sizeOf q.ty := by
      intro q hq
      obtain ⟨p, -, hpq⟩ := exists_left_of_mem hqs hq
      exact hpq.size_eq
    refine ⟨⟨v.name, d.payloadOf v.payload qs⟩, rfl, ?_, ?_, fun _ _ => known_of_payloadOf hqs⟩
    · simp only [items_payloadOf hsized]
      exact hqs
    · rw [resolvePayload, hmap]
      rfl
  obtain ⟨ws, hws⟩ := exists_forall₂ variants hvariant
  refine ⟨ws, hws, ?_⟩
  rw [hb]
  exact resolveBody_union (hws.imp fun _ _ h => ⟨h.name_eq, h.resolve_eq⟩)

end members

section building

variable {d : Draft} {i : Nat} (hd : d.Placed) {s : DefDraft} (hs : d.defs[i]? = some s)

theorem forall₂_items {fields : List FieldDraft} {gs : List Field}
    (hgs : List.Forall₂ (FieldOf d i) fields gs) :
    List.Forall₂ (ItemOf d i) (fields.map FieldDraft.item) (gs.map Field.item) := by
  rw [List.forall₂_map_left_iff, List.forall₂_map_right_iff]
  exact hgs.imp fun _ _ h => h.item

include hd hs

theorem struct_tight {fields : List FieldDraft} {gs : List Field} (hb : s.body = .struct fields)
    (hgs : List.Forall₂ (FieldOf d i) fields gs) :
    Tight d.resolved 0 (fields.map (·.ty)) (gs.map Field.item) ∧
      IsLeast {n | rowEnd 0 (gs.map Field.item) ≤ n ∧ 4 ∣ n} s.size.toNat := by
  have hp := hd.bodies i s hs
  rw [hb] at hp
  obtain ⟨htight, hend⟩ := tight_of_row hp.row (forall₂_items hgs)
  rw [List.map_map] at htight hend
  refine ⟨htight, ?_⟩
  rw [hend, hp.size_eq]
  exact nextMultiple_isLeast (Nat.succ_pos 3) _

theorem struct_laidOut {fields : List FieldDraft} {gs : List Field} (hb : s.body = .struct fields)
    (hgs : List.Forall₂ (FieldOf d i) fields gs) :
    StructLaidOut d.resolved (UInt32.ofNat i) s.size gs := by
  have hp := hd.bodies i s hs
  rw [hb] at hp
  obtain ⟨htight, hsize⟩ := struct_tight hd hs hb hgs
  have hle := hsize.1.1
  refine ⟨?_, ?_, ?_, ?_⟩
  · rintro rfl
    cases hgs
    exact hp.nonempty rfl
  · rw [map_eq_of_forall₂ hgs fun _ _ h => h.name_eq]
    exact hp.names
  · have hapart := List.pairwise_map.mp htight.apart
    exact hapart.imp fun h => Validation.disjoint_of_apart (.inl h)
  · intro g hg
    obtain ⟨f, -, hfg⟩ := exists_left_of_mem hgs hg
    have hmem := List.mem_map_of_mem (f := Field.item) hg
    obtain ⟨hfits, hgsize⟩ := htight.each _ hmem
    exact ⟨hfg.known, hgsize, hfits, ((htight.bounds.2 _ hmem).2).trans hle,
      hfg.item.resolved.earlier⟩

theorem union_tight {variants : List VariantDraft} {ws : List Variant}
    (hb : s.body = .union variants) (hws : List.Forall₂ (VariantOf d i) variants ws) :
    List.Forall₂ (fun v w => w.name = v.name ∧
        Tight d.resolved 4 (v.payload.map (·.ty)) (w.payload.items d.resolved)) variants ws ∧
      IsLeast {n | 4 ≤ n ∧ (∀ w ∈ ws, rowEnd 4 (w.payload.items d.resolved) ≤ n) ∧ 4 ∣ n}
        s.size.toNat := by
  have hp := hd.bodies i s hs
  rw [hb] at hp
  have hall : List.Forall₂ (fun v w => Tight d.resolved 4 (v.payload.map (·.ty))
        (w.payload.items d.resolved) ∧ rowEnd 4 (w.payload.items d.resolved) =
          reach (sizeTable (d.defs.take i)) 4 (v.payload.map (·.ty))) variants ws := by
    have hrows := (List.forall₂_and_left variants ws).mpr ⟨hp.rows, hws⟩
    exact hrows.imp fun v w h => tight_of_row h.1 h.2.items
  refine ⟨hall.mp (fun _ _ h h' => ⟨h'.name_eq, h.1⟩) hws, ?_⟩
  have hends := map_eq_of_forall₂ hall fun _ _ h => h.2
  have hset : {n | 4 ≤ n ∧ (∀ w ∈ ws, rowEnd 4 (w.payload.items d.resolved) ≤ n) ∧ 4 ∣ n} =
      {n | variants.foldl (fun n v => max n (reach (sizeTable (d.defs.take i)) 4
        (v.payload.map (·.ty)))) 4 ≤ n ∧ 4 ∣ n} := by
    ext n
    rw [Set.mem_ofPred_eq, Set.mem_ofPred_eq, foldl_max_le_iff, and_assoc,
      ← List.forall_mem_map (P := (· ≤ n)), hends, List.forall_mem_map]
  rw [hset, hp.size_eq]
  exact nextMultiple_isLeast (Nat.succ_pos 3) _

theorem union_sound {variants : List VariantDraft} {ws : List Variant}
    (hb : s.body = .union variants) (hws : List.Forall₂ (VariantOf d i) variants ws) :
    UnionSound d.resolved (UInt32.ofNat i) s.size ws := by
  have hp := hd.bodies i s hs
  rw [hb] at hp
  obtain ⟨htight, ⟨hroom, hends, -⟩, -⟩ := union_tight hd hs hb hws
  refine ⟨?_, hroom, ?_, ?_⟩
  · rintro rfl
    cases hws
    exact hp.nonempty rfl
  · rw [map_eq_of_forall₂ hws fun _ _ h => h.name_eq]
    exact hp.names
  · intro w hw offset t hpay
    obtain ⟨v, -, hvw⟩ := exists_left_of_mem hws hw
    obtain ⟨v', -, -, hrow⟩ := exists_left_of_mem htight hw
    have hend := hends w hw
    rw [hpay, Payload.items] at hrow hend
    have hitems := hvw.items
    rw [hpay, Payload.items] at hitems
    have hmem := List.mem_singleton_self
      (⟨offset, .inline t, d.resolved.sizeOf (.inline t)⟩ : PayloadItem)
    have hbounds := hrow.bounds.2 _ hmem
    obtain ⟨p, -, hitem⟩ := exists_left_of_mem hitems hmem
    exact ⟨hvw.known offset t hpay, hbounds.1, Nat.mod_eq_zero_of_dvd (hrow.each _ hmem).1,
      hbounds.2.trans hend, hitem.resolved.earlier t rfl⟩

end building

section built

variable {d : Draft}

theorem nameErrors_eq_nil_iff : d.nameErrors = [] ↔ (d.defs.map (·.name)).Nodup := by
  have h := Validation.nameErrors_eq_nil_iff d.resolved
  simpa [Validation.nameErrors, nameErrors, resolved, Function.comp_def] using h

theorem build_eq_ok_iff {m : Module} :
    d.build = .ok m ↔ (d.defs.map (·.name)).Nodup ∧ (∀ s ∈ d.defs, d.unknownNames s = []) ∧
      d.resolved.validate = [] ∧ d.resolved = m := by
  rw [← nameErrors_eq_nil_iff, ← List.flatMap_eq_nil_iff, build]
  cases d.nameErrors with
  | cons => simp
  | nil =>
    cases d.defs.flatMap d.unknownNames with
    | cons => simp
    | nil => cases d.resolved.validate <;> simp

variable (hd : d.Placed)
include hd

theorem Placed.laidOut : d.resolved.LaidOut := by
  have hnames : d.resolved.defs.map (·.name) = d.defs.map (·.name) := by
    simp [resolved, Function.comp_def]
  have hdef : ∀ (i : Nat) (e : TypeDef), d.resolved.defs[i]? = some e → ∃ s, d.defs[i]? = some s ∧
      e = ⟨s.name, s.size, d.resolveBody s.body⟩ := by
    intro i e he
    rw [resolved, List.getElem?_map, Option.map_eq_some_iff] at he
    obtain ⟨s, hs, rfl⟩ := he
    exact ⟨s, hs, rfl⟩
  refine ⟨hnames ▸ hd.names, ?_, ?_⟩
  · intro e he
    obtain ⟨i, hi⟩ := List.getElem?_of_mem he
    obtain ⟨s, hs, rfl⟩ := hdef i e hi
    have hp := hd.bodies i s hs
    have hdvd := fun v => (nextMultiple_isLeast (Nat.succ_pos 3) v).1.2
    cases hb : s.body with
    | struct fields =>
      rw [hb] at hp
      exact hp.size_eq ▸ hdvd _
    | union variants =>
      rw [hb] at hp
      exact hp.size_eq ▸ hdvd _
  · intro i e hi
    obtain ⟨s, hs, rfl⟩ := hdef i e hi
    cases hb : s.body with
    | struct fields =>
      obtain ⟨gs, hgs, hbody⟩ := exists_fields hd hs hb
      rw [hb] at hbody
      simp only [hbody]
      exact struct_laidOut hd hs hb hgs
    | union variants =>
      obtain ⟨ws, hws, hbody⟩ := exists_variants hd hs hb
      rw [hb] at hbody
      simp only [hbody]
      exact union_sound hd hs hb hws

theorem Placed.unknownNames_eq_nil {i : Nat} {s : DefDraft} (hs : d.defs[i]? = some s) :
    d.unknownNames s = [] := by
  unfold unknownNames
  cases hb : s.body with
  | struct fields =>
    obtain ⟨gs, hgs, -⟩ := exists_fields hd hs hb
    simp only [List.filterMap_eq_nil_iff]
    intro f hf
    obtain ⟨g, -, hg⟩ := exists_right_of_mem hgs hf
    rw [hg.resolve_eq]
  | union variants =>
    obtain ⟨ws, hws, -⟩ := exists_variants hd hs hb
    simp only [List.filterMap_eq_nil_iff]
    intro v hv
    obtain ⟨w, -, hw⟩ := exists_right_of_mem hws hv
    rw [hw.resolve_eq]

theorem Placed.build_eq : d.build = .ok d.resolved := by
  apply build_eq_ok_iff.mpr
  refine ⟨hd.names, ?_, hd.laidOut.validate_eq_nil hd.laidOut.exactEnds, rfl⟩
  intro s hs
  obtain ⟨i, hi⟩ := List.getElem?_of_mem hs
  exact hd.unknownNames_eq_nil hi

end built

end Draft

end WordLayout
