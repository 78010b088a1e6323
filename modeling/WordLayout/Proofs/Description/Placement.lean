import Mathlib
import WordLayout.Description.Placement
import WordLayout.Proofs.Draft
import WordLayout.Proofs.TypeExpr

namespace WordLayout

namespace TypeExpr

theorem Spellable.proper {ty : TypeExpr} (h : ty.Spellable) : ty.Proper := by
  cases ty with
  | scalar | vector => exact h
  | inline | ref => trivial

theorem proper_of_parse {s : String} {ty : TypeExpr} (h : parse s = .ok ty) : ty.Proper := by
  obtain ⟨cs, -, hspelled⟩ := exists_spelled_of_parse h
  exact hspelled.spellable.proper

end TypeExpr

def FieldDecl.item (f : FieldDecl) : PayloadDecl := ⟨f.type, f.offset, f.position⟩

namespace Placement

open Word

section success

variable {sizes : List (String × UInt32)} {declared : List String} {e e' : Extent}

theorem placeFields_cons_iff {type : String} {f : FieldDecl} {fs : List FieldDecl}
    {fields : List FieldDraft} :
    placeFields sizes declared type e (f :: fs) = .ok (fields, e') ↔ f.name ≠ "" ∧
      ∃ ty size align rest, typeOf sizes declared f.type = .ok (ty, size, align) ∧
        placeFields sizes declared type (e.add f.offset size align).2 fs = .ok (rest, e') ∧
        fields = { name := f.name, offset := (e.add f.offset size align).1, ty } :: rest := by
  rw [placeFields]
  by_cases hname : f.name = ""
  · rw [if_pos hname]
    simp [hname]
  · rw [if_neg hname]
    simp only [pure_eq_ok, bind_eq_ok_iff, mapError_eq_ok_iff, Prod.exists,
      Except.ok.injEq, Prod.mk.injEq, ne_eq, hname, not_false_eq_true, true_and]
    constructor
    · rintro ⟨ty, size, align, htype, rest, _, hrest, rfl, rfl⟩
      exact ⟨ty, size, align, rest, htype, hrest, rfl⟩
    · rintro ⟨ty, size, align, rest, htype, hrest, rfl⟩
      exact ⟨ty, size, align, htype, rest, e', hrest, rfl, rfl⟩

theorem placePayload_cons_iff {type variant : String} {p : PayloadDecl} {ps : List PayloadDecl}
    {items : List PayloadDraft} :
    placePayload sizes declared type variant e (p :: ps) = .ok (items, e') ↔
      ∃ ty size align rest, typeOf sizes declared p.type = .ok (ty, size, align) ∧
        placePayload sizes declared type variant (e.add p.offset size align).2 ps =
          .ok (rest, e') ∧
        items = { offset := (e.add p.offset size align).1, ty } :: rest := by
  rw [placePayload]
  simp only [pure_eq_ok, bind_eq_ok_iff, mapError_eq_ok_iff, Prod.exists, Except.ok.injEq,
    Prod.mk.injEq]
  constructor
  · rintro ⟨ty, size, align, htype, rest, _, hrest, rfl, rfl⟩
    exact ⟨ty, size, align, rest, htype, hrest, rfl⟩
  · rintro ⟨ty, size, align, rest, htype, hrest, rfl⟩
    exact ⟨ty, size, align, htype, rest, e', hrest, rfl, rfl⟩

theorem placeVariants_cons_iff {type : String} {v : VariantDecl} {vs : List VariantDecl}
    {variants : List VariantDraft} :
    placeVariants sizes declared type e (v :: vs) = .ok (variants, e') ↔ v.name ≠ "" ∧
      ∃ payload e₁ rest,
        placePayload sizes declared type v.name { e with cursor := tagSize } v.payload =
          .ok (payload, e₁) ∧
        placeVariants sizes declared type e₁ vs = .ok (rest, e') ∧
        variants = { name := v.name, payload } :: rest := by
  rw [placeVariants]
  by_cases hname : v.name = ""
  · rw [if_pos hname]
    simp [hname]
  · rw [if_neg hname]
    simp only [pure_eq_ok, bind_eq_ok_iff, Prod.exists, Except.ok.injEq, Prod.mk.injEq,
      ne_eq, hname, not_false_eq_true, true_and]
    constructor
    · rintro ⟨payload, e₁, hpayload, rest, _, hrest, rfl, rfl⟩
      exact ⟨payload, e₁, rest, hpayload, hrest, rfl⟩
    · rintro ⟨payload, e₁, rest, hpayload, hrest, rfl⟩
      exact ⟨payload, e₁, hpayload, rest, e', hrest, rfl, rfl⟩

theorem placeDef_eq_ok_iff {t : TypeDecl} {s : DefDraft} {n : Nat} :
    placeDef sizes declared t = .ok (s, n) ↔
      (t.struct ≠ "" ∧ t.union = "" ∧ t.variants = [] ∧ ∃ fields e,
        placeFields sizes declared t.struct ⟨0, 0, 0⟩ t.fields = .ok (fields, e) ∧
        ⟨t.struct, t.size.getD (alignUp e.stop 4), .struct fields⟩ = s ∧ e.auto = n) ∨
      (t.struct = "" ∧ t.union ≠ "" ∧ t.fields = [] ∧ ∃ variants e,
        placeVariants sizes declared t.union ⟨tagSize, tagSize, 0⟩ t.variants =
          .ok (variants, e) ∧
        ⟨t.union, t.size.getD (alignUp e.stop 4), .union variants⟩ = s ∧ e.auto = n) := by
  rw [placeDef]
  by_cases hstruct : t.struct = ""
  · rw [if_neg (not_not.mpr hstruct)]
    by_cases hunion : t.union = ""
    · simp [hstruct, hunion, throw, throwThe, MonadExceptOf.throw]
    by_cases hfields : t.fields = []
    · simp [hstruct, hunion, hfields, bind_eq_ok_iff]
    · simp [hstruct, hunion, hfields]
  · rw [if_pos hstruct]
    by_cases hunion : t.union = ""
    · by_cases hvariants : t.variants = []
      · simp [hstruct, hunion, hvariants, bind_eq_ok_iff]
      · simp [hstruct, hunion, hvariants]
    · simp [hstruct, hunion]

theorem placeDefs_cons_iff {t : TypeDecl} {ts : List TypeDecl} {ss : List DefDraft} {n : Nat} :
    placeDefs declared sizes (t :: ts) = .ok (ss, n) ↔
      ∃ s k rest more, placeDef sizes declared t = .ok (s, k) ∧
        placeDefs declared ((s.name, s.size) :: sizes) ts = .ok (rest, more) ∧
        ss = s :: rest ∧ n = k + more := by
  rw [placeDefs]
  simp only [pure_eq_ok, bind_eq_ok_iff, Prod.exists, Except.ok.injEq, Prod.mk.injEq]
  constructor
  · rintro ⟨s, k, hs, rest, more, hrest, rfl, rfl⟩
    exact ⟨s, k, rest, more, hs, hrest, rfl, rfl⟩
  · rintro ⟨s, k, rest, more, hs, hrest, rfl, rfl⟩
    exact ⟨s, k, hs, rest, more, hrest, rfl, rfl⟩

end success

theorem alignUp_toNat {v align : UInt32} (ha : 0 < align.toNat)
    (hv : v.toNat + align.toNat ≤ 2 ^ 32) :
    (alignUp v align).toNat = nextMultiple v.toNat align.toNat := by
  -- The sum may be 2 ^ 32 and wrap around to zero, which the subtraction takes back.
  have hpred : (v + align - 1).toNat = v.toNat + align.toNat - 1 := by
    rw [UInt32.toNat_sub, UInt32.toNat_add, UInt32.toNat_one]
    omega
  unfold alignUp
  split
  · rename_i hone
    rw [UInt32.le_iff_toNat_le, UInt32.toNat_one] at hone
    rw [nextMultiple, show align.toNat = 1 by omega]
    simp
  · have hle := Nat.div_mul_le_self (v.toNat + align.toNat - 1) align.toNat
    rw [UInt32.toNat_mul, UInt32.toNat_div, hpred, Nat.mod_eq_of_lt (by omega), nextMultiple]

def parsed (texts : List String) : List TypeExpr :=
  texts.filterMap fun s => (TypeExpr.parse s).toOption

theorem parsed_cons {text : String} {texts : List String} {ty : TypeExpr}
    (h : TypeExpr.parse text = .ok ty) : parsed (text :: texts) = ty :: parsed texts := by
  simp [parsed, h, Except.toOption]

def Reads (T : TypeExpr → Prop) (text : String) : Prop := ∃ ty, TypeExpr.parse text = .ok ty ∧ T ty

instance (T : TypeExpr → Prop) [DecidablePred T] : DecidablePred (Reads T) := fun text =>
  match h : TypeExpr.parse text with
  | .ok ty => decidable_of_iff (T ty)
      ⟨fun hty => ⟨ty, h, hty⟩, fun ⟨_, h', hty⟩ => Except.ok.inj (h.symm.trans h') ▸ hty⟩
  | .error _ => isFalse fun ⟨_, h', _⟩ => nomatch h.symm.trans h'

def exactTable (sizes : List (String × UInt32)) : List (String × Nat) :=
  sizes.map fun p => (p.1, p.2.toNat)

theorem lookup_exactTable (sizes : List (String × UInt32)) (name : String) :
    (exactTable sizes).lookup name = (sizes.lookup name).map UInt32.toNat := by
  induction sizes with
  | nil => rfl
  | cons p sizes ih =>
    rw [exactTable, List.map_cons, List.lookup_cons, List.lookup_cons]
    cases name == p.1 with
    | true => rfl
    | false => exact ih

theorem add_exact {e : Extent} {size align : UInt32} (ha : 0 < align.toNat)
    (ha' : align.toNat ≤ 4)
    (hfit : nextMultiple e.cursor.toNat align.toNat + size.toNat ≤ 2 ^ 32 - 4) :
    (e.add none size align).1.toNat = nextMultiple e.cursor.toNat align.toNat ∧
      (e.add none size align).2.cursor.toNat =
        nextMultiple e.cursor.toNat align.toNat + size.toNat ∧
      (e.add none size align).2.stop.toNat =
        max e.stop.toNat (nextMultiple e.cursor.toNat align.toNat + size.toNat) := by
  have hle := le_nextMultiple ha e.cursor.toNat
  have hoff := alignUp_toNat ha (show e.cursor.toNat + align.toNat ≤ 2 ^ 32 by omega)
  have hend : (alignUp e.cursor align + size).toNat =
      nextMultiple e.cursor.toNat align.toNat + size.toNat := by
    rw [toNat_add_of_lt (by omega), hoff]
  refine ⟨hoff, hend, ?_⟩
  simp only [Extent.add, Option.getD_none, ← hend]
  split
  · rename_i hlt
    exact (max_eq_right (UInt32.lt_iff_toNat_lt.mp hlt).le).symm
  · rename_i hlt
    rw [UInt32.lt_iff_toNat_lt, Nat.not_lt] at hlt
    exact (max_eq_left hlt).symm

def furthest (sizes : List (String × Nat)) (start : Nat) (vs : List VariantDecl) : Nat :=
  vs.foldl (fun n v => max n (reach sizes 4 (parsed (v.payload.map (·.type))))) start

theorem furthest_cons (sizes : List (String × Nat)) (start : Nat) (v : VariantDecl)
    (vs : List VariantDecl) : furthest sizes start (v :: vs) =
      furthest sizes (max start (reach sizes 4 (parsed (v.payload.map (·.type))))) vs := rfl

section fields

variable {sizes : List (String × UInt32)} {declared : List String} {type : String}
  {fs : List FieldDecl} {e e' : Extent}

theorem placeFields_eq_ok_iff (variant : String) {fields : List FieldDraft} :
    placeFields sizes declared type e fs = .ok (fields, e') ↔
      (∀ x ∈ fs.map (·.name), x ≠ "") ∧ fields.map (·.name) = fs.map (·.name) ∧
        (∀ g ∈ fields, g.size = 0) ∧
        placePayload sizes declared type variant e (fs.map FieldDecl.item) =
          .ok (fields.map FieldDraft.item, e') := by
  induction fs generalizing e fields with
  | nil =>
    have hend : (.ok ([], e) : Except Located (List FieldDraft × Extent)) = .ok (fields, e') ↔
        fields = [] ∧ e = e' := by simp [eq_comm]
    rw [placeFields, hend]
    constructor
    · rintro ⟨rfl, rfl⟩
      exact ⟨by simp, rfl, by simp, rfl⟩
    · rintro ⟨-, hnames, -, hitems⟩
      exact ⟨List.map_eq_nil_iff.mp hnames, (Prod.mk.inj (Except.ok.inj hitems)).2⟩
  | cons f fs ih =>
    rw [placeFields_cons_iff, List.map_cons, List.map_cons, List.forall_mem_cons,
      placePayload_cons_iff]
    constructor
    · rintro ⟨hname, ty, size, align, rest, htype, hrest, rfl⟩
      obtain ⟨hnames, hmap, hsizes, hitems⟩ := ih.mp hrest
      exact ⟨⟨hname, hnames⟩, congrArg _ hmap, List.forall_mem_cons.mpr ⟨rfl, hsizes⟩,
        ty, size, align, _, htype, hitems, rfl⟩
    · rintro ⟨⟨hname, hnames⟩, hmap, hsizes, ty, size, align, items, htype, hrest, hitems⟩
      cases fields with
      | nil => cases hmap
      | cons g fields =>
        obtain ⟨hg, hmap⟩ := List.cons.inj hmap
        obtain ⟨hitem, rfl⟩ := List.cons.inj hitems
        rw [List.forall_mem_cons] at hsizes
        have hrest := ih.mpr ⟨hnames, hmap, hsizes.2, hrest⟩
        refine ⟨hname, ty, size, align, fields, htype, hrest, ?_⟩
        obtain ⟨name, offset, ty', size'⟩ := g
        obtain ⟨rfl, rfl⟩ := PayloadDraft.mk.inj hitem
        obtain rfl : name = f.name := hg
        obtain rfl : size' = 0 := hsizes.1
        rfl

theorem exists_placeFields {variant : String} (hnames : ∀ f ∈ fs, f.name ≠ "")
    {items : List PayloadDraft}
    (h : placePayload sizes declared type variant e (fs.map FieldDecl.item) = .ok (items, e')) :
    ∃ fields, placeFields sizes declared type e fs = .ok (fields, e') ∧
      fields.map (·.name) = fs.map (·.name) ∧ (∀ g ∈ fields, g.size = 0) ∧
      fields.map FieldDraft.item = items := by
  induction fs generalizing e items with
  | nil =>
    obtain ⟨rfl, rfl⟩ := Prod.mk.inj (Except.ok.inj h)
    exact ⟨[], rfl, rfl, by simp, rfl⟩
  | cons f fs ih =>
    rw [List.forall_mem_cons] at hnames
    rw [List.map_cons] at h
    obtain ⟨ty, size, align, rest, htype, hrest, rfl⟩ := placePayload_cons_iff.mp h
    obtain ⟨fields, hfields, hnames', hsizes, rfl⟩ := ih hnames.2 hrest
    refine ⟨{ name := f.name, offset := (e.add f.offset size align).1, ty } :: fields, ?_, ?_, ?_,
      rfl⟩
    · exact placeFields_cons_iff.mpr ⟨hnames.1, ty, size, align, fields, htype, hfields, rfl⟩
    · rw [List.map_cons, List.map_cons, hnames']
    · exact List.forall_mem_cons.mpr ⟨rfl, hsizes⟩

end fields

section members

variable {sizes : List (String × UInt32)} (declared : List String) {T : TypeExpr → Prop}
  (hT : ∀ name, T (.inline name) → ∃ n, sizes.lookup name = some n)
include hT

theorem measure_ok {ty : TypeExpr} (hty : T ty) :
    ∃ size align, measure sizes declared ty = .ok (size, align) ∧
      size.toNat = ty.bytes (exactTable sizes) ∧ align.toNat = ty.align := by
  cases ty with
  | scalar k => exact ⟨k.size, k.size, rfl, rfl, rfl⟩
  | vector k lanes =>
    refine ⟨k.size * lanes.toUInt32, k.size, rfl, ?_, rfl⟩
    have hsize := sizeOf_leaf default (rfl : (Ty.vector k lanes).leaf? = some (k, lanes.toNat))
    rwa [Nat.mul_comm] at hsize
  | ref name => exact ⟨4, 4, rfl, rfl, rfl⟩
  | inline name =>
    obtain ⟨n, hn⟩ := hT name hty
    refine ⟨n, 4, ?_, ?_, rfl⟩
    · rw [measure, hn]
    · rw [TypeExpr.bytes, lookup_exactTable, hn]
      rfl

theorem member_ok {text : String} (htext : Reads T text) {e : Extent} (texts : List String)
    (hfit : reach (exactTable sizes) e.cursor.toNat (parsed (text :: texts)) ≤ 2 ^ 32 - 4) :
    ∃ ty size align, typeOf sizes declared text = .ok (ty, size, align) ∧ T ty ∧
      parsed (text :: texts) = ty :: parsed texts ∧
      (e.add none size align).1.toNat = nextMultiple e.cursor.toNat ty.align ∧
      (e.add none size align).2.cursor.toNat =
        nextMultiple e.cursor.toNat ty.align + ty.bytes (exactTable sizes) ∧
      (e.add none size align).2.stop.toNat =
        max e.stop.toNat (nextMultiple e.cursor.toNat ty.align + ty.bytes (exactTable sizes)) := by
  obtain ⟨ty, hparse, hty⟩ := htext
  obtain ⟨size, align, hmeasure, hsize, halign⟩ := measure_ok declared hT hty
  have hrest := le_reach (exactTable sizes)
    (nextMultiple e.cursor.toNat ty.align + ty.bytes (exactTable sizes)) (parsed texts)
  rw [parsed_cons hparse, reach_cons] at hfit
  refine ⟨ty, size, align, ?_, hty, parsed_cons hparse, ?_⟩
  · rw [typeOf, hparse]
    simp only [Except.mapError, ok_bind, hmeasure, pure_eq_ok]
  · rw [← hsize, ← halign]
    rw [← hsize, ← halign] at hrest
    apply add_exact (halign ▸ ty.align_pos) (halign ▸ ty.align_le)
    exact hrest.trans (by rwa [hsize, halign])

theorem placePayload_ok (type variant : String) {ps : List PayloadDecl} {e : Extent}
    (hps : ∀ p ∈ ps, p.offset = none ∧ Reads T p.type)
    (hfit : reach (exactTable sizes) e.cursor.toNat (parsed (ps.map (·.type))) ≤ 2 ^ 32 - 4)
    (hstop : e.cursor.toNat ≤ e.stop.toNat) :
    ∃ items e', placePayload sizes declared type variant e ps = .ok (items, e') ∧
      items.map (·.ty) = parsed (ps.map (·.type)) ∧ (∀ q ∈ items, T q.ty) ∧
      Row (exactTable sizes) e.cursor.toNat items ∧
      e'.stop.toNat = max e.stop.toNat
        (reach (exactTable sizes) e.cursor.toNat (parsed (ps.map (·.type)))) := by
  induction ps generalizing e with
  | nil => exact ⟨[], e, rfl, rfl, by simp, .nil _, (max_eq_left hstop).symm⟩
  | cons p ps ih =>
    rw [List.forall_mem_cons] at hps
    obtain ⟨⟨hnone, htext⟩, hps⟩ := hps
    rw [List.map_cons] at hfit ⊢
    obtain ⟨ty, size, align, htype, hty, hparsed, hoff, hcursor, hend⟩ :=
      member_ok declared hT htext (ps.map (·.type)) hfit
    rw [hparsed, reach_cons, ← hcursor] at hfit
    obtain ⟨items, e', hrest, htypes, hall, hrow, hstop'⟩ := ih hps hfit (by omega)
    refine ⟨⟨(e.add none size align).1, ty⟩ :: items, e', ?_, ?_, ?_, ?_, ?_⟩
    · apply placePayload_cons_iff.mpr
      rw [hnone]
      exact ⟨ty, size, align, items, htype, hrest, rfl⟩
    · rw [List.map_cons, htypes, hparsed]
    · exact List.forall_mem_cons.mpr ⟨hty, hall⟩
    · refine .cons hoff ?_
      rwa [hcursor, ← hoff] at hrow
    · have hle := le_reach (exactTable sizes) (e.add none size align).2.cursor.toNat
        (parsed (ps.map (·.type)))
      rw [hstop', hparsed, reach_cons, ← hcursor, hend, ← hcursor]
      omega

theorem placeFields_ok (type : String) {fs : List FieldDecl} {e : Extent}
    (hfs : ∀ f ∈ fs, f.name ≠ "" ∧ f.offset = none ∧ Reads T f.type)
    (hfit : reach (exactTable sizes) e.cursor.toNat (parsed (fs.map (·.type))) ≤ 2 ^ 32 - 4)
    (hstop : e.cursor.toNat ≤ e.stop.toNat) :
    ∃ fields e', placeFields sizes declared type e fs = .ok (fields, e') ∧
      fields.map (·.name) = fs.map (·.name) ∧
      fields.map (·.ty) = parsed (fs.map (·.type)) ∧ (∀ g ∈ fields, g.size = 0 ∧ T g.ty) ∧
      Row (exactTable sizes) e.cursor.toNat (fields.map FieldDraft.item) ∧
      e'.stop.toNat = max e.stop.toNat
        (reach (exactTable sizes) e.cursor.toNat (parsed (fs.map (·.type)))) := by
  let ps : List PayloadDecl := fs.map FieldDecl.item
  have htexts : ps.map (·.type) = fs.map (·.type) := by
    rw [List.map_map]
    rfl
  rw [← htexts] at hfit ⊢
  have hps : ∀ p ∈ ps, p.offset = none ∧ Reads T p.type := by
    intro p hp
    obtain ⟨f, hf, rfl⟩ := List.mem_map.mp hp
    exact (hfs f hf).2
  obtain ⟨items, e', hitems, htypes, hall, hrow, hend⟩ :=
    placePayload_ok declared hT type "" hps hfit hstop
  obtain ⟨fields, hfields, hnames, hsizes, rfl⟩ :=
    exists_placeFields (fun f hf => (hfs f hf).1) hitems
  rw [List.map_map] at htypes
  exact ⟨fields, e', hfields, hnames, htypes,
    fun g hg => ⟨hsizes g hg, hall _ (List.mem_map_of_mem hg)⟩, hrow, hend⟩

structure VariantPlaced (sizes : List (String × Nat)) (T : TypeExpr → Prop) (v : VariantDecl)
    (w : VariantDraft) : Prop where
  name_eq : w.name = v.name
  types_eq : w.payload.map (·.ty) = parsed (v.payload.map (·.type))
  targets : ∀ p ∈ w.payload, T p.ty
  row : Row sizes 4 w.payload

theorem placeVariants_ok (type : String) {vs : List VariantDecl} {e : Extent}
    (hvs : ∀ v ∈ vs, v.name ≠ "" ∧ ∀ p ∈ v.payload, p.offset = none ∧ Reads T p.type)
    (hfit : furthest (exactTable sizes) e.stop.toNat vs ≤ 2 ^ 32 - 4)
    (hstop : 4 ≤ e.stop.toNat) :
    ∃ variants e', placeVariants sizes declared type e vs = .ok (variants, e') ∧
      List.Forall₂ (VariantPlaced (exactTable sizes) T) vs variants ∧
      e'.stop.toNat = furthest (exactTable sizes) e.stop.toNat vs := by
  induction vs generalizing e with
  | nil => exact ⟨[], e, rfl, .nil, rfl⟩
  | cons v vs ih =>
    rw [List.forall_mem_cons] at hvs
    obtain ⟨⟨hname, hps⟩, hvs⟩ := hvs
    rw [furthest_cons] at hfit ⊢
    have hmax := (foldl_max_le_iff _ _ _ _).mp hfit
    obtain ⟨items, e₁, hpayload, htypes, hall, hrow, hend⟩ :=
      placePayload_ok declared hT type v.name (e := { e with cursor := tagSize }) hps
        ((le_max_right _ _).trans hmax.1) hstop
    change e₁.stop.toNat = max e.stop.toNat (reach _ 4 _) at hend
    rw [← hend] at hfit ⊢
    obtain ⟨variants, e', hrest, hplaced, hstop'⟩ := ih hvs hfit (by omega)
    refine ⟨⟨v.name, items⟩ :: variants, e', ?_, .cons ⟨rfl, htypes, hall, hrow⟩ hplaced, hstop'⟩
    exact placeVariants_cons_iff.mpr ⟨hname, items, e₁, variants, hpayload, hrest, rfl⟩

end members

section definitions

def signature (t : TypeDecl) : String × Bool := (nameOf t, decide (t.struct = ""))

structure StructAutomatic (earlier all : List (String × Bool)) (t : TypeDecl) : Prop where
  struct_ne : t.struct ≠ ""
  union_eq : t.union = ""
  variants_eq : t.variants = []
  size_eq : t.size = none
  nonempty : t.fields ≠ []
  names : (t.fields.map (·.name)).Nodup
  fields : ∀ f ∈ t.fields,
    f.name ≠ "" ∧ f.offset = none ∧ Reads (TypeExpr.FieldTarget earlier all) f.type

structure UnionAutomatic (earlier all : List (String × Bool)) (t : TypeDecl) : Prop where
  struct_eq : t.struct = ""
  union_ne : t.union ≠ ""
  fields_eq : t.fields = []
  size_eq : t.size = none
  nonempty : t.variants ≠ []
  names : (t.variants.map (·.name)).Nodup
  variants : ∀ v ∈ t.variants, v.name ≠ "" ∧
    ∀ p ∈ v.payload, p.offset = none ∧ Reads (TypeExpr.PayloadTarget earlier all) p.type

def Automatic (earlier all : List (String × Bool)) (t : TypeDecl) : Prop :=
  StructAutomatic earlier all t ∨ UnionAutomatic earlier all t

def exactSize (sizes : List (String × Nat)) (t : TypeDecl) : Nat :=
  if t.struct = "" then nextMultiple (furthest sizes 4 t.variants) 4
  else nextMultiple (reach sizes 0 (parsed (t.fields.map (·.type)))) 4

def exactSizes (types : List TypeDecl) : List (String × Nat) :=
  types.foldl (fun sizes t => (nameOf t, exactSize sizes t) :: sizes) []

def BodyOf (t : TypeDecl) : BodyDraft → Prop
  | .struct fields => t.struct ≠ "" ∧ fields.map (·.name) = t.fields.map (·.name) ∧
      fields.map (·.ty) = parsed (t.fields.map (·.type))
  | .union variants => t.struct = "" ∧ List.Forall₂ (fun v w => w.name = v.name ∧
      w.payload.map (·.ty) = parsed (v.payload.map (·.type))) t.variants variants

structure DefPlaced (sizes : List (String × Nat)) (earlier all : List (String × Bool))
    (t : TypeDecl) (s : DefDraft) : Prop where
  signature_eq : Draft.signature s = signature t
  size_eq : s.size.toNat = exactSize sizes t
  placed : s.body.Placed sizes earlier all s.size
  body : BodyOf t s.body

variable {sizes : List (String × UInt32)} (declared : List String)
  {earlier all : List (String × Bool)} {t : TypeDecl}

theorem alignUp_word {stop : UInt32} {n : Nat} (hn : stop.toNat = n)
    (hfit : nextMultiple n 4 ≤ 2 ^ 32 - 4) : (alignUp stop 4).toNat = nextMultiple n 4 := by
  subst hn
  have hle := le_nextMultiple (show 0 < 4 by decide) stop.toNat
  exact alignUp_toNat (Nat.succ_pos 3) (by change stop.toNat + 4 ≤ 2 ^ 32; omega)

theorem placeStruct_ok (hknown : ∀ p ∈ earlier, ∃ n, sizes.lookup p.1 = some n)
    (ht : StructAutomatic earlier all t) (hfit : exactSize (exactTable sizes) t ≤ 2 ^ 32 - 4) :
    ∃ s n, placeDef sizes declared t = .ok (s, n) ∧
      DefPlaced (exactTable sizes) earlier all t s := by
  have hfields : ∀ f ∈ t.fields, f.name ≠ "" ∧ f.offset = none ∧
      Reads (fun ty => ty.Proper ∧ ty.FieldTarget earlier all) f.type := by
    intro f hf
    obtain ⟨hname, hnone, ty, hparse, htarget⟩ := ht.fields f hf
    exact ⟨hname, hnone, ty, hparse, TypeExpr.proper_of_parse hparse, htarget⟩
  have hsize : exactSize (exactTable sizes) t =
      nextMultiple (reach (exactTable sizes) 0 (parsed (t.fields.map (·.type)))) 4 :=
    if_neg ht.struct_ne
  rw [hsize] at hfit
  have hreach := le_nextMultiple (Nat.succ_pos 3)
    (reach (exactTable sizes) 0 (parsed (t.fields.map (·.type))))
  obtain ⟨fields, e, hplace, hnames, htypes, hall, hrow, hend⟩ :=
    placeFields_ok declared (fun name h => hknown _ h.2) t.struct (e := ⟨0, 0, 0⟩) hfields
      (hreach.trans hfit) le_rfl
  change Row (exactTable sizes) 0 _ at hrow
  change e.stop.toNat = max 0 (reach (exactTable sizes) 0 _) at hend
  rw [Nat.zero_max] at hend
  have hstop := alignUp_word hend hfit
  refine ⟨⟨t.struct, alignUp e.stop 4, .struct fields⟩, e.auto, ?_, ?_, ?_, ?_, ?_⟩
  · apply placeDef_eq_ok_iff.mpr
    rw [ht.size_eq]
    exact .inl ⟨ht.struct_ne, ht.union_eq, ht.variants_eq, fields, e, hplace, rfl, rfl⟩
  · simp [Draft.signature, Draft.isUnion, signature, nameOf, ht.struct_ne]
  · rw [hstop, hsize]
  · refine ⟨?_, ?_, hall, hrow, ?_⟩
    · rintro rfl
      exact ht.nonempty (List.map_eq_nil_iff.mp hnames.symm)
    · rw [hnames]
      exact ht.names
    · rw [hstop, htypes]
  · exact ⟨ht.struct_ne, hnames, htypes⟩

theorem foldl_reach {T : TypeExpr → Prop} {sizes : List (String × Nat)} {vs : List VariantDecl}
    {ws : List VariantDraft} (h : List.Forall₂ (VariantPlaced sizes T) vs ws) (start : Nat) :
    ws.foldl (fun n w => max n (reach sizes 4 (w.payload.map (·.ty)))) start =
      furthest sizes start vs := by
  induction h generalizing start with
  | nil => rfl
  | cons hvw _ ih => rw [List.foldl_cons, hvw.types_eq, ih, furthest_cons]

theorem placeUnion_ok (hknown : ∀ p ∈ earlier, ∃ n, sizes.lookup p.1 = some n)
    (ht : UnionAutomatic earlier all t) (hfit : exactSize (exactTable sizes) t ≤ 2 ^ 32 - 4) :
    ∃ s n, placeDef sizes declared t = .ok (s, n) ∧
      DefPlaced (exactTable sizes) earlier all t s := by
  have hsize : exactSize (exactTable sizes) t =
      nextMultiple (furthest (exactTable sizes) 4 t.variants) 4 :=
    if_pos ht.struct_eq
  rw [hsize] at hfit
  have hreach := le_nextMultiple (Nat.succ_pos 3) (furthest (exactTable sizes) 4 t.variants)
  obtain ⟨variants, e, hplace, hplaced, hend⟩ :=
    placeVariants_ok declared (fun name ⟨_, h⟩ => hknown _ h) t.union
      (e := ⟨tagSize, tagSize, 0⟩) ht.variants (hreach.trans hfit) le_rfl
  have hstop := alignUp_word hend hfit
  refine ⟨⟨t.union, alignUp e.stop 4, .union variants⟩, e.auto, ?_, ?_, ?_, ?_, ?_⟩
  · apply placeDef_eq_ok_iff.mpr
    rw [ht.size_eq]
    exact .inr ⟨ht.struct_eq, ht.union_ne, ht.fields_eq, variants, e, hplace, rfl, rfl⟩
  · simp [Draft.signature, Draft.isUnion, signature, nameOf, ht.struct_eq]
  · exact hstop.trans hsize.symm
  · refine ⟨?_, ?_, ?_, ?_, ?_⟩
    · rintro rfl
      exact ht.nonempty (List.forall₂_nil_right_iff.mp hplaced)
    · rw [map_eq_of_forall₂ hplaced fun _ _ h => h.name_eq]
      exact ht.names
    · intro w hw
      obtain ⟨v, -, hvw⟩ := exists_left_of_mem hplaced hw
      exact hvw.targets
    · intro w hw
      obtain ⟨v, -, hvw⟩ := exists_left_of_mem hplaced hw
      exact hvw.row
    · rw [foldl_reach hplaced]
      exact hstop
  · exact ⟨ht.struct_eq, hplaced.imp fun _ _ h => ⟨h.name_eq, h.types_eq⟩⟩

theorem placeDef_ok (hknown : ∀ p ∈ earlier, ∃ n, sizes.lookup p.1 = some n)
    (ht : Automatic earlier all t) (hfit : exactSize (exactTable sizes) t ≤ 2 ^ 32 - 4) :
    ∃ s n, placeDef sizes declared t = .ok (s, n) ∧
      DefPlaced (exactTable sizes) earlier all t s := by
  rcases ht with ht | ht
  · exact placeStruct_ok declared hknown ht hfit
  · exact placeUnion_ok declared hknown ht hfit

def wordTable (ss : List DefDraft) : List (String × UInt32) :=
  (ss.map fun s => (s.name, s.size)).reverse

theorem exactTable_wordTable (ss : List DefDraft) :
    exactTable (wordTable ss) = Draft.sizeTable ss := by
  simp [exactTable, wordTable, Draft.sizeTable, Function.comp_def]

theorem lookup_wordTable {ss : List DefDraft} {p : String × Bool}
    (hp : p ∈ ss.map Draft.signature) : ∃ n, (wordTable ss).lookup p.1 = some n := by
  obtain ⟨s, hs, rfl⟩ := List.mem_map.mp hp
  have hmem : (s.name, s.size) ∈ wordTable ss := List.mem_reverse.mpr (List.mem_map_of_mem hs)
  cases h : (wordTable ss).lookup s.name with
  | some n => exact ⟨n, h⟩
  | none => exact absurd (List.lookup_eq_none_iff.mp h _ hmem) (by simp)

theorem placeDefs_concat {ts : List TypeDecl} {ss : List DefDraft} {s : DefDraft} {n k : Nat}
    (h : placeDefs declared sizes ts = .ok (ss, n))
    (ht : placeDef (wordTable ss ++ sizes) declared t = .ok (s, k)) :
    placeDefs declared sizes (ts ++ [t]) = .ok (ss ++ [s], n + k) := by
  induction ts generalizing sizes ss n with
  | nil =>
    obtain ⟨rfl, rfl⟩ := Prod.mk.inj (Except.ok.inj h)
    change placeDef sizes declared t = _ at ht
    simp [placeDefs, ht]
  | cons u ts ih =>
    obtain ⟨r, i, rs, j, hr, hrs, rfl, rfl⟩ := placeDefs_cons_iff.mp h
    rw [show wordTable (r :: rs) ++ sizes = wordTable rs ++ (r.name, r.size) :: sizes by
      simp [wordTable]] at ht
    exact placeDefs_cons_iff.mpr ⟨r, i, rs ++ [s], j + k, hr, ih hrs ht, rfl, Nat.add_assoc i j k⟩

theorem exactSizes_concat (ts : List TypeDecl) (t : TypeDecl) :
    exactSizes (ts ++ [t]) = (nameOf t, exactSize (exactSizes ts) t) :: exactSizes ts := by
  rw [exactSizes, List.foldl_append]
  rfl

theorem placeDefs_ok {ts : List TypeDecl}
    (hts : ∀ (i : Nat) (t : TypeDecl), ts[i]? = some t →
      Automatic ((ts.take i).map signature) all t ∧
        exactSize (exactSizes (ts.take i)) t ≤ 2 ^ 32 - 4) :
    ∃ ss n, placeDefs declared [] ts = .ok (ss, n) ∧ ss.map Draft.signature = ts.map signature ∧
      Draft.sizeTable ss = exactSizes ts ∧
      ∀ (i : Nat) (t : TypeDecl), ts[i]? = some t → ∃ s, ss[i]? = some s ∧
        DefPlaced (Draft.sizeTable (ss.take i)) ((ss.take i).map Draft.signature) all t s := by
  -- The last declaration sees exactly what the ones before it left behind, so the list grows at its
  -- end here although it is placed from its head.
  induction ts using List.reverseRecOn with
  | nil => exact ⟨[], 0, rfl, rfl, rfl, by simp⟩
  | append_singleton ts t ih =>
    have hinit : ∀ (i : Nat) (u : TypeDecl), ts[i]? = some u → (ts ++ [t])[i]? = some u ∧
        (ts ++ [t]).take i = ts.take i := by
      intro i u hu
      obtain ⟨hi, -⟩ := List.getElem?_eq_some_iff.mp hu
      exact ⟨by rw [List.getElem?_append_left hi, hu], List.take_append_of_le_length hi.le⟩
    obtain ⟨ss, n, hss, hsig, hsizes, hplaced⟩ := ih fun i u hu => by
      have hi := hinit i u hu
      exact hi.2 ▸ hts i u hi.1
    obtain ⟨hauto, hfit⟩ := hts ts.length t (by simp)
    rw [List.take_left] at hauto hfit
    rw [← hsizes, ← exactTable_wordTable] at hfit
    rw [← hsig] at hauto
    obtain ⟨s, k, hs, hdef⟩ := placeDef_ok declared (fun p => lookup_wordTable) hauto hfit
    have hlen : ss.length = ts.length := by simpa using congrArg List.length hsig
    rw [exactTable_wordTable] at hdef
    refine ⟨ss ++ [s], n + k, ?_, ?_, ?_, ?_⟩
    · exact placeDefs_concat declared hss (by rwa [List.append_nil])
    · rw [List.map_append, List.map_append, hsig, List.map_singleton, List.map_singleton,
        hdef.signature_eq]
    · rw [exactSizes_concat, ← hsizes, ← hdef.size_eq]
      have hname := congrArg Prod.fst hdef.signature_eq
      simp [Draft.sizeTable, ← show s.name = nameOf t from hname]
    · intro i u hu
      rcases Nat.lt_or_ge i ts.length with hi | hi
      · rw [List.getElem?_append_left hi] at hu
        obtain ⟨r, hr, hdef⟩ := hplaced i u hu
        refine ⟨r, ?_, ?_⟩
        · rw [List.getElem?_append_left (by omega), hr]
        · rwa [List.take_append_of_le_length (by omega)]
      · obtain ⟨hlt, -⟩ := List.getElem?_eq_some_iff.mp hu
        obtain rfl : i = ts.length := by simp at hlt; omega
        obtain rfl : t = u := by simpa using hu
        exact ⟨s, by simp [← hlen], by rwa [← hlen, List.take_left]⟩

end definitions

end Placement

namespace Description

open Placement

variable {d : Description}

theorem place_eq_ok_iff {draft : Draft} {n : Nat} :
    d.place = .ok (draft, n) ↔ d.module ≠ "" ∧ d.types ≠ [] ∧ ∃ ss,
      placeDefs ((d.types.flatMap fun t => [t.struct, t.union]).filter (· ≠ "")) [] d.types =
        .ok (ss, n) ∧ { name := d.module, writable := d.writable, defs := ss } = draft := by
  rw [place]
  by_cases hmodule : d.module = ""
  · simp [hmodule]
  by_cases htypes : d.types = []
  · simp [hmodule, htypes]
  · simp [hmodule, htypes, bind_eq_ok_iff]

theorem build_eq_ok_iff {m : Module} {n : Nat} :
    d.build = .ok (m, n) ↔ ∃ draft, d.place = .ok (draft, n) ∧ draft.build = .ok m := by
  rw [build, bind_eq_ok_iff, Prod.exists]
  apply exists_congr
  intro draft
  constructor
  · rintro ⟨auto, hplace, h⟩
    cases hbuild : draft.build with
    | ok m' =>
      simp only [hbuild, pure_eq_ok, Except.ok.injEq, Prod.mk.injEq] at h
      obtain ⟨rfl, rfl⟩ := h
      exact ⟨hplace, rfl⟩
    | error errors => simp [hbuild, throw, throwThe, MonadExceptOf.throw] at h
  · rintro ⟨hplace, hbuild⟩
    refine ⟨n, hplace, ?_⟩
    simp only [hbuild, pure_eq_ok]

end Description

end WordLayout
