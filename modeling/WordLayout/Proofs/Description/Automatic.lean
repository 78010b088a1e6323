import Mathlib
import WordLayout.Description.Load
import WordLayout.Proofs.Description.Placement

namespace WordLayout

open Placement

structure Description.Automatic (d : Description) : Prop where
  module_ne : d.module ≠ ""
  types_ne : d.types ≠ []
  names : (d.types.map nameOf).Nodup
  count : d.types.length ≤ 2 ^ 32
  types : ∀ (i : Nat) (t : TypeDecl), d.types[i]? = some t →
    Placement.Automatic ((d.types.take i).map signature) (d.types.map signature) t ∧
      exactSize (exactSizes (d.types.take i)) t ≤ 2 ^ 32 - 4

/-- The definition has the members of the declaration in their order. Each stands at the least place
behind the one before it, those of a variant behind the tag, and the size is the least number of
whole words that holds them. -/
def TightDef (m : Module) (t : TypeDecl) (e : TypeDef) : Prop :=
  e.name = nameOf t ∧
    match e.body with
    | .struct fields => t.struct ≠ "" ∧ fields.map (·.name) = t.fields.map (·.name) ∧
        Tight m 0 (parsed (t.fields.map (·.type))) (fields.map Field.item) ∧
        IsLeast {n | rowEnd 0 (fields.map Field.item) ≤ n ∧ 4 ∣ n} e.size.toNat
    | .union variants => t.struct = "" ∧
        List.Forall₂ (fun v w => w.name = v.name ∧
          Tight m 4 (parsed (v.payload.map (·.type))) (w.payload.items m)) t.variants variants ∧
        IsLeast {n | 4 ≤ n ∧ (∀ w ∈ variants, rowEnd 4 (w.payload.items m) ≤ n) ∧ 4 ∣ n}
          e.size.toNat
    | .missing => False

theorem tightDef_resolved {d : Draft} (hd : d.Placed) {i : Nat} {s : DefDraft}
    (hs : d.defs[i]? = some s) {t : TypeDecl} (hname : s.name = nameOf t) (hbody : BodyOf t s.body) :
    TightDef d.resolved t ⟨s.name, s.size, d.resolveBody s.body⟩ := by
  refine ⟨hname, ?_⟩
  cases hb : s.body with
  | struct fields =>
    obtain ⟨gs, hgs, hres⟩ := Draft.exists_fields hd hs hb
    rw [hb] at hbody hres
    obtain ⟨hstruct, hnames, htypes⟩ := hbody
    obtain ⟨htight, hsize⟩ := Draft.struct_tight hd hs hb hgs
    rw [htypes] at htight
    rw [hres]
    refine ⟨hstruct, ?_, htight, hsize⟩
    rw [← hnames]
    exact map_eq_of_forall₂ hgs fun _ _ h => h.name_eq
  | union variants =>
    obtain ⟨ws, hws, hres⟩ := Draft.exists_variants hd hs hb
    rw [hb] at hbody hres
    obtain ⟨hunion, hvs⟩ := hbody
    obtain ⟨htight, hsize⟩ := Draft.union_tight hd hs hb hws
    rw [hres]
    refine ⟨hunion, forall₂_trans ?_ hvs htight, hsize⟩
    rintro v w w' ⟨hname, htypes⟩ ⟨hname', hrow⟩
    rw [htypes] at hrow
    exact ⟨hname'.trans hname, hrow⟩

theorem Description.Automatic.place_ok {d : Description} (hd : d.Automatic) :
    ∃ draft auto, d.place = .ok (draft, auto) ∧ draft.Placed ∧
      d.types.length = draft.defs.length ∧
      ∀ (i : Nat) (t : TypeDecl), d.types[i]? = some t → ∃ s, draft.defs[i]? = some s ∧
        s.name = nameOf t ∧ BodyOf t s.body := by
  obtain ⟨ss, n, hss, hsig, -, hplaced⟩ := placeDefs_ok
    ((d.types.flatMap fun t => [t.struct, t.union]).filter (· ≠ "")) hd.types
  have hlen : ss.length = d.types.length := by simpa using congrArg List.length hsig
  have hnames : ss.map (·.name) = d.types.map nameOf := by
    simpa [Function.comp_def, Draft.signature, signature] using congrArg (List.map Prod.fst) hsig
  refine ⟨⟨d.module, d.writable, ss⟩, n, ?_, ⟨hnames ▸ hd.names, hlen ▸ hd.count, ?_⟩, hlen.symm, ?_⟩
  · exact place_eq_ok_iff.mpr ⟨hd.module_ne, hd.types_ne, ss, hss, rfl⟩
  · intro i s hs
    obtain ⟨hi, -⟩ := List.getElem?_eq_some_iff.mp hs
    obtain ⟨s', hs', hdef⟩ := hplaced i _ (List.getElem?_eq_getElem (hlen ▸ hi))
    obtain rfl : s = s' := Option.some.inj (hs.symm.trans hs')
    exact hsig ▸ hdef.placed
  · intro i t ht
    obtain ⟨s, hs, hdef⟩ := hplaced i t ht
    exact ⟨s, hs, congrArg Prod.fst hdef.signature_eq, hdef.body⟩

theorem load_eq {source : List UInt8} {d : Description} {m : Module} {auto : Nat}
    (hread : Load.read source = .ok d) (hbuild : d.build = .ok (m, auto)) :
    load source = .ok { module := m, log := [Load.loadedEntry m auto] } := by
  have h : (Load.read source).bind Description.build = .ok (m, auto) := by
    rw [hread]
    exact hbuild
  unfold load
  rw [h]

theorem automatic_layout_tight {d : Description} (hd : d.Automatic) :
    ∃ m auto, d.build = .ok (m, auto) ∧ m.validate = [] ∧
      List.Forall₂ (TightDef m) d.types m.defs ∧
      ∀ source, Load.read source = .ok d →
        load source = .ok { module := m, log := [Load.loadedEntry m auto] } := by
  obtain ⟨draft, auto, hplace, hplaced, hlen, hdefs⟩ := hd.place_ok
  have hbuild : d.build = .ok (draft.resolved, auto) := by
    rw [Description.build, hplace, ok_bind]
    simp only [hplaced.build_eq, pure_eq_ok]
  refine ⟨draft.resolved, auto, hbuild, ?_, ?_, ?_⟩
  · exact hplaced.laidOut.validate_eq_nil hplaced.laidOut.exactEnds
  · rw [List.forall₂_iff_get]
    refine ⟨by simpa [Draft.resolved] using hlen, ?_⟩
    intro i hi hi'
    obtain ⟨s, hs, hname, hbody⟩ := hdefs i _ (List.getElem?_eq_getElem hi)
    obtain ⟨_, hget⟩ := List.getElem?_eq_some_iff.mp hs
    have htight := tightDef_resolved hplaced hs hname hbody
    simpa [Draft.resolved, hget] using htight
  · intro source hread
    exact load_eq hread hbuild

def shapesText : String :=
  "module: memory
types:
- struct: Node
  fields:
  - name: kind
    type: u8
  - name: color
    type: vec3<u16>
  - name: next
    type: ref<Node>
- union: Shape
  variants:
  - name: Empty
  - name: Filled
    payload: [u8, Node]
"

def shapes : Description where
  module := "memory"
  types :=
    [{ struct := "Node", position := ⟨3, 3⟩
       fields :=
         [{ name := "kind", type := "u8", position := ⟨5, 5⟩ },
           { name := "color", type := "vec3<u16>", position := ⟨7, 5⟩ },
           { name := "next", type := "ref<Node>", position := ⟨9, 5⟩ }] },
      { union := "Shape", position := ⟨11, 3⟩
        variants :=
          [{ name := "Empty", position := ⟨13, 5⟩ },
            { name := "Filled", position := ⟨14, 5⟩
              payload :=
                [{ type := "u8", position := ⟨15, 15⟩ }, { type := "Node", position := ⟨15, 19⟩ }] }] }]
  position := ⟨1, 1⟩

theorem read_shapes : Load.read shapesText.toByteArray.data.toList = .ok shapes := by
  decide +kernel

theorem shapes_automatic : shapes.Automatic where
  module_ne := by decide
  types_ne := by decide
  names := by decide
  count := by decide
  types := by
    intro i t ht
    match i with
    | 0 =>
      obtain rfl := Option.some.inj ht
      exact ⟨.inl ⟨by decide, rfl, rfl, rfl, by decide, by decide, by decide⟩, by decide⟩
    | 1 =>
      obtain rfl := Option.some.inj ht
      exact ⟨.inr ⟨rfl, by decide, rfl, rfl, by decide, by decide, by decide⟩, by decide⟩
    | i + 2 => simp [shapes] at ht

theorem automatic_layout_tight_shapes :
    shapes.Automatic ∧ ∃ m auto, shapes.build = .ok (m, auto) ∧ m.validate = [] ∧
      List.Forall₂ (TightDef m) shapes.types m.defs ∧
      load shapesText.toByteArray.data.toList =
        .ok { module := m, log := [Load.loadedEntry m auto] } := by
  refine ⟨shapes_automatic, ?_⟩
  obtain ⟨m, auto, hbuild, hvalid, htight, hload⟩ := automatic_layout_tight shapes_automatic
  exact ⟨m, auto, hbuild, hvalid, htight, hload _ read_shapes⟩

end WordLayout
