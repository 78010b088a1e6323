import Mathlib
import WordLayout.Proofs.Draft

namespace WordLayout

namespace Draft

inductive Call
  | struct (name : String) (size : UInt32) (fields : List FieldDraft)
  | union (name : String) (size : UInt32) (variants : List VariantDraft)
  | setWritable (writable : Bool)
  deriving DecidableEq, Inhabited

namespace Call

def spec? : Call → Option DefDraft
  | .struct name size fields => some ⟨name, size, .struct fields⟩
  | .union name size variants => some ⟨name, size, .union variants⟩
  | .setWritable _ => none

def writable? : Call → Option Bool
  | .setWritable writable => some writable
  | .struct .. | .union .. => none

def apply (d : Draft) : Call → Draft
  | .struct name size fields => d.add ⟨name, size, .struct fields⟩
  | .union name size variants => d.add ⟨name, size, .union variants⟩
  | .setWritable writable => d.setWritable writable

end Call

def ofCalls (name : String) (calls : List Call) : Draft := calls.foldl Call.apply { name }

theorem foldl_apply (calls : List Call) (d : Draft) :
    calls.foldl Call.apply d =
      { name := d.name, writable := (calls.filterMap Call.writable?).getLast?.getD d.writable
        defs := d.defs ++ calls.filterMap Call.spec? } := by
  induction calls generalizing d with
  | nil => simp
  | cons c calls ih =>
    rw [List.foldl_cons, ih]
    cases c with
    | struct | union => simp [Call.apply, Call.spec?, Call.writable?, add]
    | setWritable writable =>
      simp only [Call.apply, Call.spec?, Call.writable?, setWritable, List.filterMap_cons]
      rw [List.getLast?_cons, Option.getD_some]

theorem ofCalls_eq (name : String) (calls : List Call) :
    ofCalls name calls =
      { name, writable := (calls.filterMap Call.writable?).getLast?.getD false
        defs := calls.filterMap Call.spec? } := by
  rw [ofCalls, foldl_apply, List.nil_append]

section success

variable {d : Draft}

theorem lookup_zipIdx (defs : List DefDraft) (name : String) (k : Nat) :
    ((defs.zipIdx k).map fun (s, i) => (s.name, UInt32.ofNat i)).lookup name =
      (defs.findIdx? fun s => s.name == name).map fun i => UInt32.ofNat (i + k) := by
  induction defs generalizing k with
  | nil => rfl
  | cons s defs ih =>
    rw [List.zipIdx_cons, List.map_cons, List.lookup_cons, List.findIdx?_cons, ih]
    by_cases hname : s.name = name
    · simp [hname]
    · have hshift : (fun i => UInt32.ofNat (i + (k + 1))) =
          (fun i => UInt32.ofNat (i + k)) ∘ fun i => i + 1 := by
        funext i
        rw [Function.comp_apply, Nat.add_right_comm, Nat.add_assoc]
      rw [beq_eq_false_iff_ne.mpr (Ne.symm hname), if_neg (by simpa using hname), Option.map_map,
        hshift]

theorem scan_resolved (name : String) :
    Module.lookup { d.resolved with index := none } name = d.resolved.lookup name := by
  have hscan := lookup_zipIdx d.defs name 0
  simpa [Module.lookup, resolved, skeleton, index, List.findIdx?_map, Function.comp_def] using
    hscan.symm

section handles

variable (hn : (d.defs.map (·.name)).Nodup) (hc : d.defs.length ≤ 2 ^ 32)
include hc

theorem def?_resolved_iff {h : Handle} {e : TypeDef} :
    d.resolved.def? h = some e ↔ ∃ (i : Nat) (s : DefDraft), d.defs[i]? = some s ∧
      h = UInt32.ofNat i ∧ e = ⟨s.name, s.size, d.resolveBody s.body⟩ := by
  constructor
  · intro he
    simp only [Module.def?, resolved, List.getElem?_map, Option.map_eq_some_iff] at he
    obtain ⟨s, hs, rfl⟩ := he
    exact ⟨h.toNat, s, hs, UInt32.ofNat_toNat.symm, rfl⟩
  · rintro ⟨i, s, hs, rfl, rfl⟩
    exact def?_resolved hc hs

include hn

theorem lookup_index_iff {name : String} {h : Handle} :
    d.index.lookup name = some h ↔ ∃ e, d.resolved.def? h = some e ∧ e.name = name := by
  constructor
  · intro hl
    have hscan := lookup_zipIdx d.defs name 0
    rw [← index, hl, eq_comm, Option.map_eq_some_iff] at hscan
    obtain ⟨i, hi, rfl⟩ := hscan
    obtain ⟨s, hs, hname⟩ : ∃ s, d.defs[i]? = some s ∧ s.name = name := by
      rw [List.findIdx?_eq_some_iff_getElem] at hi
      obtain ⟨hlt, hname, -⟩ := hi
      exact ⟨_, List.getElem?_eq_getElem hlt, by simpa using hname⟩
    exact ⟨_, def?_resolved hc hs, hname⟩
  · rintro ⟨e, he, rfl⟩
    obtain ⟨i, s, hs, rfl, rfl⟩ := (def?_resolved_iff hc).mp he
    exact lookup_index hn hs

theorem handle_unique {h h' : Handle} {e e' : TypeDef} (he : d.resolved.def? h = some e)
    (he' : d.resolved.def? h' = some e') (hname : e.name = e'.name) : h = h' := by
  have hl := (lookup_index_iff hn hc).mpr ⟨e, he, hname⟩
  have hl' := (lookup_index_iff hn hc).mpr ⟨e', he', rfl⟩
  exact Option.some.inj (hl.symm.trans hl')

theorem denotes_of_resolve {ty : TypeExpr} {ty' : Ty} (h : d.resolve ty = .ok ty') :
    ty.Denotes d.resolved ty' := by
  cases ty with
  | scalar | vector => exact (Except.ok.inj h).symm
  | inline name =>
    rw [resolve] at h
    split at h
    · rename_i target hl
      obtain ⟨e, he, hname⟩ := (lookup_index_iff hn hc).mp hl
      exact ⟨target, e, he, hname, (Except.ok.inj h).symm⟩
    · cases h
  | ref name =>
    rw [resolve] at h
    split at h
    · rename_i target hl
      obtain ⟨e, he, hname⟩ := (lookup_index_iff hn hc).mp hl
      exact ⟨target, e, he, hname, (Except.ok.inj h).symm⟩
    · cases h

end handles

end success

end Draft

structure FieldBuilt (m : Module) (f : FieldDraft) (g : Field) : Prop where
  name_eq : g.name = f.name
  offset_eq : g.offset = f.offset
  denotes : f.ty.Denotes m g.ty
  size_eq : g.size = m.sizeOf g.ty

structure ItemBuilt (m : Module) (p : PayloadDraft) (q : PayloadItem) : Prop where
  offset_eq : q.offset = p.offset
  denotes : p.ty.Denotes m q.ty
  size_eq : q.size = m.sizeOf q.ty

structure PayloadBuilt (m : Module) (specs : List PayloadDraft) (payload : Payload) : Prop where
  empty_iff : payload = .empty ↔ specs = []
  struct_iff : ∀ offset h, payload = .struct offset h ↔ ∃ p e fields, specs = [p] ∧
    p.offset = offset ∧ p.ty = .inline e.name ∧ m.def? h = some e ∧ e.body = .struct fields
  otherwise : payload = .empty ∨ (∃ offset h, payload = .struct offset h) ∨
    ∃ items reason, payload = .unsupported items reason ∧ List.Forall₂ (ItemBuilt m) specs items

def BodyBuilt (m : Module) : BodyDraft → Body → Prop
  | .struct fields, .struct gs => List.Forall₂ (FieldBuilt m) fields gs
  | .union variants, .union ws =>
    List.Forall₂ (fun v w => w.name = v.name ∧ PayloadBuilt m v.payload w.payload) variants ws
  | .struct _, .union _ | .union _, .struct _ | _, .missing => False

structure DefBuilt (m : Module) (s : DefDraft) (e : TypeDef) : Prop where
  name_eq : e.name = s.name
  size_eq : e.size = s.size
  body : BodyBuilt m s.body e.body

namespace Draft

section built

variable {d : Draft} (hn : (d.defs.map (·.name)).Nodup) (hc : d.defs.length ≤ 2 ^ 32)
include hn hc

theorem itemBuilt_of_resolve {p : PayloadDraft} {q : PayloadItem} (h : d.resolveItem p = .ok q) :
    ItemBuilt d.resolved p q := by
  rw [resolveItem] at h
  obtain ⟨ty, hty, hq⟩ := bind_eq_ok_iff.mp h
  obtain rfl := Except.ok.inj hq
  exact ⟨rfl, denotes_of_resolve hn hc hty, sizeOf_skeleton ty⟩

omit hn hc in
theorem struct_iff_not_union {h : Handle} {e : TypeDef} (he : d.resolved.def? h = some e) :
    (∃ fields, e.body = .struct fields) ↔ (d.defs[h.toNat]?.map isUnion).getD false = false := by
  rw [Module.def?, resolved, List.getElem?_map, Option.map_eq_some_iff] at he
  obtain ⟨s, hs, rfl⟩ := he
  rw [hs, Option.map_some, Option.getD_some, isUnion]
  cases s.body <;> simp [resolveBody]

theorem payloadBuilt_of_resolve {specs : List PayloadDraft} {payload : Payload}
    (h : d.resolvePayload specs = .ok payload) : PayloadBuilt d.resolved specs payload := by
  rw [resolvePayload] at h
  obtain ⟨items, hmap, hpayload⟩ := bind_eq_ok_iff.mp h
  obtain rfl := Except.ok.inj hpayload
  have hitems : List.Forall₂ (ItemBuilt d.resolved) specs items :=
    (mapM_eq_ok_iff.mp hmap).imp fun _ _ hitem => itemBuilt_of_resolve hn hc hitem
  refine ⟨?_, ?_, ?_⟩
  · rw [payloadOf_eq_empty_iff, ← List.length_eq_zero_iff, ← hitems.length_eq,
      List.length_eq_zero_iff]
  · intro offset h
    rw [payloadOf_eq_struct_iff]
    constructor
    · rintro ⟨-, q, rfl, rfl, hty, hu⟩
      obtain ⟨p, _, hq, hnil, rfl⟩ := List.forall₂_cons_right_iff.mp hitems
      obtain rfl := List.forall₂_nil_right_iff.mp hnil
      have hden := hq.denotes
      rw [hty] at hden
      obtain ⟨e, he, hinline⟩ := hden.of_inline
      obtain ⟨fields, hb⟩ := (struct_iff_not_union he).mpr hu
      exact ⟨p, e, fields, rfl, hq.offset_eq.symm, hinline, he, hb⟩
    · rintro ⟨p, e, fields, rfl, rfl, hinline, he, hb⟩
      obtain ⟨q, _, hq, hnil, rfl⟩ := List.forall₂_cons_left_iff.mp hitems
      obtain rfl := List.forall₂_nil_left_iff.mp hnil
      have hden := hq.denotes
      rw [hinline] at hden
      obtain ⟨h', e', he', hname, hty⟩ := hden
      obtain rfl := handle_unique hn hc he' he hname
      exact ⟨List.cons_ne_nil _ _, q, rfl, hq.offset_eq, hty,
        (struct_iff_not_union he).mp ⟨fields, hb⟩⟩
  · rcases payloadOf_cases d specs items with hempty | hstruct | ⟨reason, hreason⟩
    · exact .inl hempty
    · exact .inr (.inl hstruct)
    · exact .inr (.inr ⟨items, reason, hreason, hitems⟩)

theorem fieldBuilt_of_resolve {f : FieldDraft} {g : Field} (h : d.resolveField f = .ok g)
    (hsize : g.size = d.resolved.sizeOf g.ty) : FieldBuilt d.resolved f g := by
  rw [resolveField] at h
  obtain ⟨ty, hty, hg⟩ := bind_eq_ok_iff.mp h
  obtain rfl := Except.ok.inj hg
  exact ⟨rfl, rfl, denotes_of_resolve hn hc hty, hsize⟩

theorem defBuilt_of_resolve (hv : d.resolved.validate = []) {s : DefDraft} (hs : s ∈ d.defs)
    (hu : d.unknownNames s = []) :
    DefBuilt d.resolved s ⟨s.name, s.size, d.resolveBody s.body⟩ := by
  have hmem : (⟨s.name, s.size, d.resolveBody s.body⟩ : TypeDef) ∈ d.resolved.defs :=
    List.mem_map_of_mem hs
  refine ⟨rfl, rfl, ?_⟩
  cases hb : s.body with
  | struct fields =>
    obtain ⟨gs, hgs, hres⟩ := struct_resolved hu hb
    rw [hb] at hres hmem
    have hsized : ∀ g ∈ gs, g.size = d.resolved.sizeOf g.ty := fun g hg =>
      (Validation.field_known hv hmem hres hg).2
    simp only [hres, BodyBuilt]
    have hboth := (List.forall₂_and_left gs fields).mpr ⟨hsized, hgs.flip⟩
    exact hboth.flip.imp fun f g hg => fieldBuilt_of_resolve hn hc hg.2 hg.1
  | union variants =>
    obtain ⟨ws, hws, hres⟩ := union_resolved hu hb
    rw [hb] at hres
    simp only [hres, BodyBuilt]
    exact hws.imp fun v w hw => ⟨hw.1, payloadBuilt_of_resolve hn hc hw.2⟩

end built

structure Faithful (name : String) (calls : List Call) (m : Module) : Prop where
  name_eq : m.name = name
  writable_eq : m.writable = (calls.filterMap Call.writable?).getLast?.getD false
  defs : List.Forall₂ (DefBuilt m) (calls.filterMap Call.spec?) m.defs
  interned : ∃ index, m.index = some index
  lookup_iff : ∀ name h, m.lookup name = some h ↔ ∃ e, m.def? h = some e ∧ e.name = name
  scan_eq : ∀ name, Module.lookup { m with index := none } name = m.lookup name

theorem built_module_faithful {name : String} {calls : List Call} {m : Module}
    (hcount : (calls.filterMap Call.spec?).length ≤ 2 ^ 32)
    (h : (ofCalls name calls).build = .ok m) : Faithful name calls m := by
  rw [ofCalls_eq] at h
  obtain ⟨hn, hu, hv, rfl⟩ := build_eq_ok_iff.mp h
  refine ⟨rfl, rfl, ?_, ⟨_, rfl⟩, ?_, scan_resolved⟩
  · apply List.forall₂_map_right_iff.mpr
    apply List.forall₂_same.mpr
    intro s hs
    exact defBuilt_of_resolve hn hcount hv hs (hu s hs)
  · intro name h
    exact lookup_index_iff hn hcount

def shapeCalls : List Call :=
  [.setWritable true,
    .struct "Node" 12 [⟨"kind", 0, .scalar .u8, 0⟩, ⟨"shape", 4, .ref "Leaf", 4⟩,
      ⟨"color", 8, .vector .u8 3, 0⟩],
    .struct "Leaf" 12 [⟨"node", 0, .inline "Node", 0⟩],
    .union "Shape" 24 [⟨"Empty", []⟩, ⟨"Filled", [⟨4, .inline "Leaf"⟩]⟩,
      ⟨"Raw", [⟨4, .scalar .u32⟩]⟩, ⟨"Twice", [⟨4, .ref "Leaf"⟩, ⟨8, .inline "Node"⟩]⟩],
    .setWritable false]

theorem built_module_faithful_shapes :
    (shapeCalls.filterMap Call.spec?).length ≤ 2 ^ 32 ∧
      ∃ m, (ofCalls "memory" shapeCalls).build = .ok m ∧ Faithful "memory" shapeCalls m := by
  have hcount : (shapeCalls.filterMap Call.spec?).length ≤ 2 ^ 32 := by decide
  have hvalid : (ofCalls "memory" shapeCalls).resolved.validate = [] := by cbv
  have hbuild : (ofCalls "memory" shapeCalls).build = .ok (ofCalls "memory" shapeCalls).resolved :=
    build_eq_ok_iff.mpr ⟨by decide, by decide, hvalid, rfl⟩
  exact ⟨hcount, _, hbuild, built_module_faithful hcount hbuild⟩

end Draft

end WordLayout
