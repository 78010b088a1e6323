import Mathlib
import WordLayout.Proofs.Description.Automatic
import WordLayout.Proofs.Draft.Build

/-!
Descriptions that spell out what they could leave out. If every omitted offset and size is set to
what it is in the loaded module, the same module is loaded again: the cursor takes the same places
on its way through the members, and every declaration sees the same sizes of those before it. Where
the parts of a description stand in the text shows in errors only.
-/

namespace WordLayout

open Placement

structure DefLayout where
  size : UInt32
  fields : List UInt32
  payloads : List (List UInt32)
  deriving DecidableEq, Inhabited

def TypeDef.layout (m : Module) (e : TypeDef) : DefLayout :=
  match e.body with
  | .struct fields => ⟨e.size, fields.map (·.offset), []⟩
  | .union variants => ⟨e.size, [], variants.map fun v => (v.payload.items m).map (·.offset)⟩
  | .missing => ⟨e.size, [], []⟩

def DefDraft.layout (s : DefDraft) : DefLayout :=
  match s.body with
  | .struct fields => ⟨s.size, fields.map (·.offset), []⟩
  | .union variants => ⟨s.size, [], variants.map fun v => v.payload.map (·.offset)⟩

namespace Draft

variable {d : Draft}

theorem offsets_of_resolvePayload {specs : List PayloadDraft} {payload : Payload}
    (h : d.resolvePayload specs = .ok payload) :
    (payload.items d.resolved).map (·.offset) = specs.map (·.offset) := by
  rw [resolvePayload] at h
  obtain ⟨items, hmap, hpayload⟩ := bind_eq_ok_iff.mp h
  obtain rfl := Except.ok.inj hpayload
  have hoffsets : items.map (·.offset) = specs.map (·.offset) := by
    apply map_eq_of_forall₂ (mapM_eq_ok_iff.mp hmap)
    intro p q hq
    rw [resolveItem] at hq
    obtain ⟨ty, -, hq⟩ := bind_eq_ok_iff.mp hq
    obtain rfl := Except.ok.inj hq
    rfl
  rw [← hoffsets]
  unfold payloadOf
  split
  · rfl
  · split
    · split
      · rfl
      · rfl
    · rfl
  · rfl

theorem layout_resolved {s : DefDraft} (hu : d.unknownNames s = []) :
    TypeDef.layout d.resolved ⟨s.name, s.size, d.resolveBody s.body⟩ = s.layout := by
  cases hb : s.body with
  | struct fields =>
    obtain ⟨gs, hgs, hres⟩ := struct_resolved hu hb
    have hoffsets : gs.map (·.offset) = fields.map (·.offset) := by
      apply map_eq_of_forall₂ hgs
      intro f g hg
      rw [resolveField] at hg
      obtain ⟨ty, -, hg⟩ := bind_eq_ok_iff.mp hg
      obtain rfl := Except.ok.inj hg
      rfl
    rw [hb] at hres
    simp only [TypeDef.layout, DefDraft.layout, hb, hres, hoffsets]
  | union variants =>
    obtain ⟨ws, hws, hres⟩ := union_resolved hu hb
    have hoffsets : ws.map (fun w => (w.payload.items d.resolved).map (·.offset)) =
        variants.map fun v => v.payload.map (·.offset) :=
      map_eq_of_forall₂ hws fun _ _ hw => offsets_of_resolvePayload hw.2
    rw [hb] at hres
    simp only [TypeDef.layout, DefDraft.layout, hb, hres, hoffsets]

theorem layouts_of_build {m : Module} (h : d.build = .ok m) :
    m.defs.map (TypeDef.layout m) = d.defs.map DefDraft.layout := by
  obtain ⟨-, hu, -, rfl⟩ := build_eq_ok_iff.mp h
  rw [resolved, List.map_map]
  apply List.map_congr_left
  intro s hs
  exact layout_resolved (hu s hs)

end Draft

def FieldDecl.pin (f : FieldDecl) (offset : UInt32) : FieldDecl :=
  { f with offset := some (f.offset.getD offset) }

def PayloadDecl.pin (p : PayloadDecl) (offset : UInt32) : PayloadDecl :=
  { p with offset := some (p.offset.getD offset) }

def VariantDecl.pin (v : VariantDecl) (offsets : List UInt32) : VariantDecl :=
  { v with payload := List.zipWith PayloadDecl.pin v.payload offsets }

def TypeDecl.pin (t : TypeDecl) (layout : DefLayout) : TypeDecl :=
  { t with
    size := some (t.size.getD layout.size)
    fields := List.zipWith FieldDecl.pin t.fields layout.fields
    variants := List.zipWith VariantDecl.pin t.variants layout.payloads }

/-- The description with the layout of the module that is built from it where it leaves it open. The
lists have the same lengths then, so that no member is lost. -/
def Description.explicit (d : Description) (m : Module) : Description :=
  { d with types := List.zipWith TypeDecl.pin d.types (m.defs.map (TypeDef.layout m)) }

namespace Placement

variable {sizes : List (String × UInt32)} {declared : List String}

theorem add_pinned (e : Extent) (given : Option UInt32) (size align : UInt32) (n : Nat) :
    Extent.add { e with auto := n } (some (given.getD (e.add given size align).1)) size align =
      ((e.add given size align).1, { (e.add given size align).2 with auto := n }) := by
  cases given with
  | none => rfl
  | some offset => rfl

theorem placePayload_pin {type variant : String} {ps : List PayloadDecl} {e e' : Extent}
    {items : List PayloadDraft}
    (h : placePayload sizes declared type variant e ps = .ok (items, e')) (n : Nat) :
    placePayload sizes declared type variant { e with auto := n }
        (List.zipWith PayloadDecl.pin ps (items.map (·.offset))) =
      .ok (items, { e' with auto := n }) := by
  induction ps generalizing e items with
  | nil =>
    obtain ⟨rfl, rfl⟩ := Prod.mk.inj (Except.ok.inj h)
    rfl
  | cons p ps ih =>
    obtain ⟨ty, size, align, rest, htype, hrest, rfl⟩ := placePayload_cons_iff.mp h
    apply placePayload_cons_iff.mpr
    refine ⟨ty, size, align, rest, htype, ?_, ?_⟩
    · simp only [PayloadDecl.pin, add_pinned]
      exact ih hrest
    · simp only [PayloadDecl.pin, add_pinned]

theorem placeFields_pin {type : String} {fs : List FieldDecl} {e e' : Extent}
    {fields : List FieldDraft} (h : placeFields sizes declared type e fs = .ok (fields, e'))
    (n : Nat) :
    placeFields sizes declared type { e with auto := n }
        (List.zipWith FieldDecl.pin fs (fields.map (·.offset))) =
      .ok (fields, { e' with auto := n }) := by
  obtain ⟨hnames, hmap, hsizes, hitems⟩ := (placeFields_eq_ok_iff "").mp h
  have hlen : fs.length = (fields.map (·.offset)).length := by
    simpa [eq_comm] using congrArg List.length hmap
  have hpinned : (List.zipWith FieldDecl.pin fs (fields.map (·.offset))).map (·.name) =
      fs.map (·.name) := by
    apply List.ext_getElem
    · simp [hlen]
    · simp [FieldDecl.pin]
  have hpin := placePayload_pin hitems n
  rw [List.map_map, List.zipWith_map_left] at hpin
  apply (placeFields_eq_ok_iff "").mpr
  rw [hpinned, List.map_zipWith]
  exact ⟨hnames, hmap, hsizes, hpin⟩

theorem placeVariants_pin {type : String} {vs : List VariantDecl} {e e' : Extent}
    {variants : List VariantDraft}
    (h : placeVariants sizes declared type e vs = .ok (variants, e')) (n : Nat) :
    placeVariants sizes declared type { e with auto := n }
        (List.zipWith VariantDecl.pin vs (variants.map fun v => v.payload.map (·.offset))) =
      .ok (variants, { e' with auto := n }) := by
  induction vs generalizing e variants with
  | nil =>
    obtain ⟨rfl, rfl⟩ := Prod.mk.inj (Except.ok.inj h)
    rfl
  | cons v vs ih =>
    obtain ⟨hname, payload, e₁, rest, hpayload, hrest, rfl⟩ := placeVariants_cons_iff.mp h
    apply placeVariants_cons_iff.mpr
    exact ⟨hname, payload, { e₁ with auto := n }, rest, placePayload_pin hpayload n, ih hrest, rfl⟩

theorem placeDef_pin {t : TypeDecl} {s : DefDraft} {k : Nat}
    (h : placeDef sizes declared t = .ok (s, k)) :
    placeDef sizes declared (t.pin s.layout) = .ok (s, 0) := by
  have hsize : ∀ a, t.size.getD (t.size.getD a) = t.size.getD a := by
    intro a
    cases t.size <;> rfl
  apply placeDef_eq_ok_iff.mpr
  rcases placeDef_eq_ok_iff.mp h with
    ⟨hstruct, hunion, hvariants, fields, e, hfields, rfl, -⟩ |
    ⟨hstruct, hunion, hfields, variants, e, hvariants, rfl, -⟩
  · refine .inl ⟨hstruct, hunion, ?_, fields, { e with auto := 0 }, placeFields_pin hfields 0, ?_,
      rfl⟩
    · simp [TypeDecl.pin, hvariants]
    · simp only [TypeDecl.pin, DefDraft.layout, Option.getD_some, hsize]
  · refine .inr ⟨hstruct, hunion, ?_, variants, { e with auto := 0 }, placeVariants_pin hvariants 0,
      ?_, rfl⟩
    · simp [TypeDecl.pin, hfields]
    · simp only [TypeDecl.pin, DefDraft.layout, Option.getD_some, hsize]

theorem placeDefs_pin {ts : List TypeDecl} {ss : List DefDraft} {n : Nat}
    (h : placeDefs declared sizes ts = .ok (ss, n)) :
    placeDefs declared sizes (List.zipWith TypeDecl.pin ts (ss.map DefDraft.layout)) =
      .ok (ss, 0) := by
  induction ts generalizing sizes ss n with
  | nil =>
    obtain ⟨rfl, -⟩ := Prod.mk.inj (Except.ok.inj h)
    rfl
  | cons t ts ih =>
    obtain ⟨s, k, rest, more, hs, hrest, rfl, -⟩ := placeDefs_cons_iff.mp h
    exact placeDefs_cons_iff.mpr ⟨s, 0, rest, 0, placeDef_pin hs, ih hrest, rfl, rfl⟩

theorem length_placeDefs {ts : List TypeDecl} {ss : List DefDraft} {n : Nat}
    (h : placeDefs declared sizes ts = .ok (ss, n)) : ss.length = ts.length := by
  induction ts generalizing sizes ss n with
  | nil =>
    obtain ⟨rfl, -⟩ := Prod.mk.inj (Except.ok.inj h)
    rfl
  | cons t ts ih =>
    obtain ⟨s, k, rest, more, -, hrest, rfl, -⟩ := placeDefs_cons_iff.mp h
    rw [List.length_cons, List.length_cons, ih hrest]

theorem declared_pin {ts : List TypeDecl} {layouts : List DefLayout}
    (h : layouts.length = ts.length) :
    (List.zipWith TypeDecl.pin ts layouts).flatMap (fun t => [t.struct, t.union]) =
      ts.flatMap fun t => [t.struct, t.union] := by
  induction ts generalizing layouts with
  | nil => rfl
  | cons t ts ih =>
    cases layouts with
    | nil => simp at h
    | cons layout layouts =>
      rw [List.zipWith_cons_cons, List.flatMap_cons, List.flatMap_cons,
        ih (Nat.succ.inj h)]
      rfl

end Placement

namespace Description

variable {d : Description}

theorem place_pin {draft : Draft} {n : Nat} (h : d.place = .ok (draft, n)) :
    place { d with types := List.zipWith TypeDecl.pin d.types (draft.defs.map DefDraft.layout) } =
      .ok (draft, 0) := by
  obtain ⟨hmodule, htypes, ss, hss, rfl⟩ := place_eq_ok_iff.mp h
  have hlen : (ss.map DefDraft.layout).length = d.types.length := by
    rw [List.length_map, length_placeDefs hss]
  apply place_eq_ok_iff.mpr
  refine ⟨hmodule, ?_, ss, ?_, rfl⟩
  · rw [← List.length_pos_iff] at htypes ⊢
    rw [List.length_zipWith, hlen, min_self]
    exact htypes
  · rw [declared_pin hlen]
    exact placeDefs_pin hss

theorem explicit_build {m : Module} {n : Nat} (h : d.build = .ok (m, n)) :
    (d.explicit m).build = .ok (m, 0) := by
  obtain ⟨draft, hplace, hbuild⟩ := build_eq_ok_iff.mp h
  apply build_eq_ok_iff.mpr
  refine ⟨draft, ?_, hbuild⟩
  rw [explicit, Draft.layouts_of_build hbuild]
  exact place_pin hplace

end Description

section unplaced

def FieldDecl.unplaced (f : FieldDecl) : FieldDecl := { f with position := {} }

def PayloadDecl.unplaced (p : PayloadDecl) : PayloadDecl := { p with position := {} }

def VariantDecl.unplaced (v : VariantDecl) : VariantDecl :=
  { v with payload := v.payload.map PayloadDecl.unplaced, position := {} }

def TypeDecl.unplaced (t : TypeDecl) : TypeDecl :=
  { t with
    fields := t.fields.map FieldDecl.unplaced
    variants := t.variants.map VariantDecl.unplaced
    position := {} }

def Description.unplaced (d : Description) : Description :=
  { d with types := d.types.map TypeDecl.unplaced, position := {} }

variable {sizes : List (String × UInt32)} {declared : List String} {e e' : Extent}

theorem placePayload_unplaced {type variant : String} {ps : List PayloadDecl}
    {items : List PayloadDraft} :
    placePayload sizes declared type variant e (ps.map PayloadDecl.unplaced) = .ok (items, e') ↔
      placePayload sizes declared type variant e ps = .ok (items, e') := by
  induction ps generalizing e items with
  | nil => exact Iff.rfl
  | cons p ps ih =>
    rw [List.map_cons, placePayload_cons_iff, placePayload_cons_iff]
    simp only [PayloadDecl.unplaced, ih]

theorem placeFields_unplaced {type : String} {fs : List FieldDecl} {fields : List FieldDraft} :
    placeFields sizes declared type e (fs.map FieldDecl.unplaced) = .ok (fields, e') ↔
      placeFields sizes declared type e fs = .ok (fields, e') := by
  have hitems : (fs.map FieldDecl.unplaced).map FieldDecl.item =
      (fs.map FieldDecl.item).map PayloadDecl.unplaced := by
    rw [List.map_map, List.map_map]
    rfl
  have hnames : (fs.map FieldDecl.unplaced).map (·.name) = fs.map (·.name) := by
    rw [List.map_map]
    rfl
  rw [placeFields_eq_ok_iff "", placeFields_eq_ok_iff "", hitems, hnames, placePayload_unplaced]

theorem placeVariants_unplaced {type : String} {vs : List VariantDecl}
    {variants : List VariantDraft} :
    placeVariants sizes declared type e (vs.map VariantDecl.unplaced) = .ok (variants, e') ↔
      placeVariants sizes declared type e vs = .ok (variants, e') := by
  induction vs generalizing e variants with
  | nil => exact Iff.rfl
  | cons v vs ih =>
    rw [List.map_cons, placeVariants_cons_iff, placeVariants_cons_iff]
    simp only [VariantDecl.unplaced, placePayload_unplaced, ih]

theorem placeDef_unplaced {t : TypeDecl} {s : DefDraft} {n : Nat} :
    placeDef sizes declared t.unplaced = .ok (s, n) ↔ placeDef sizes declared t = .ok (s, n) := by
  rw [placeDef_eq_ok_iff, placeDef_eq_ok_iff]
  simp only [TypeDecl.unplaced, placeFields_unplaced, placeVariants_unplaced, List.map_eq_nil_iff]

theorem placeDefs_unplaced {ts : List TypeDecl} {ss : List DefDraft} {n : Nat} :
    placeDefs declared sizes (ts.map TypeDecl.unplaced) = .ok (ss, n) ↔
      placeDefs declared sizes ts = .ok (ss, n) := by
  induction ts generalizing sizes ss n with
  | nil => exact Iff.rfl
  | cons t ts ih =>
    rw [List.map_cons, placeDefs_cons_iff, placeDefs_cons_iff]
    simp only [placeDef_unplaced, ih]

theorem Description.build_unplaced {d : Description} {m : Module} {n : Nat} :
    d.unplaced.build = .ok (m, n) ↔ d.build = .ok (m, n) := by
  have hdeclared : (d.types.map TypeDecl.unplaced).flatMap (fun t => [t.struct, t.union]) =
      d.types.flatMap fun t => [t.struct, t.union] := by
    rw [List.flatMap_map]
    rfl
  rw [build_eq_ok_iff, build_eq_ok_iff]
  simp only [place_eq_ok_iff, unplaced, hdeclared, placeDefs_unplaced, ne_eq, List.map_eq_nil_iff]

end unplaced

theorem explicit_layout_loads {d : Description} {m : Module} {auto : Nat}
    (h : d.build = .ok (m, auto)) :
    (d.explicit m).build = .ok (m, 0) ∧
      ∀ source d', Load.read source = .ok d' → d'.unplaced = (d.explicit m).unplaced →
        load source = .ok { module := m, log := [Load.loadedEntry m 0] } := by
  have hbuild := Description.explicit_build h
  refine ⟨hbuild, ?_⟩
  intro source d' hread heq
  apply load_eq hread
  rw [← Description.build_unplaced, heq, Description.build_unplaced]
  exact hbuild

def mixed : Description where
  module := "memory"
  types :=
    [{ struct := "Node"
       fields :=
         [{ name := "next", type := "ref<Node>", offset := some 8 },
           { name := "kind", type := "u8", offset := some 1 },
           { name := "color", type := "u16" }] },
      { union := "Shape", size := some 24
        variants :=
          [{ name := "Both", payload := [{ type := "Node", offset := some 8 }, { type := "u8" }] }] }]

def mixedDraft : Draft where
  name := "memory"
  defs :=
    [⟨"Node", 12, .struct [⟨"next", 8, .ref "Node", 0⟩, ⟨"kind", 1, .scalar .u8, 0⟩,
        ⟨"color", 2, .scalar .u16, 0⟩]⟩,
      ⟨"Shape", 24, .union [⟨"Both", [⟨8, .inline "Node"⟩, ⟨20, .scalar .u8⟩]⟩]⟩]

def explicitText : String :=
  "module: memory
types:
- struct: Node
  size: 12
  fields:
  - {name: next, type: ref<Node>, offset: 8}
  - {name: kind, type: u8, offset: 1}
  - {name: color, type: u16, offset: 2}
- union: Shape
  size: 24
  variants:
  - name: Both
    payload: [{type: Node, offset: 8}, {type: u8, offset: 20}]
"

theorem explicit_layout_loads_mixed :
    mixed.build = .ok (mixedDraft.resolved, 2) ∧
      (mixed.explicit mixedDraft.resolved).build = .ok (mixedDraft.resolved, 0) ∧
      load explicitText.toByteArray.data.toList = .ok
        { module := mixedDraft.resolved, log := [Load.loadedEntry mixedDraft.resolved 0] } := by
  have hvalid : mixedDraft.resolved.validate = [] := by cbv
  have hbuild : mixed.build = .ok (mixedDraft.resolved, 2) := by
    apply Description.build_eq_ok_iff.mpr
    refine ⟨mixedDraft, by decide +kernel, Draft.build_eq_ok_iff.mpr ⟨?_, ?_, hvalid, rfl⟩⟩
    · decide
    · decide
  have hread : (Load.read explicitText.toByteArray.data.toList).map Description.unplaced =
      .ok (mixed.explicit mixedDraft.resolved).unplaced := by
    decide +kernel
  obtain ⟨hexplicit, hload⟩ := explicit_layout_loads hbuild
  refine ⟨hbuild, hexplicit, ?_⟩
  cases hd : Load.read explicitText.toByteArray.data.toList with
  | ok d' =>
    rw [hd] at hread
    exact hload _ d' hd (Except.ok.inj hread)
  | error fault =>
    rw [hd] at hread
    cases hread

end WordLayout
