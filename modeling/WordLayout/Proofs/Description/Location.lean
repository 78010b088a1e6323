import Mathlib
import WordLayout.Proofs.Description.Automatic
import WordLayout.Proofs.Validation.Subject

namespace WordLayout

namespace Placement

structure Member where
  type : String
  name : String
  position : Position

def Member.key (x : Member) : String := memberKey x.type x.name

def members (t : TypeDecl) : List Member :=
  t.fields.map (fun f => ⟨nameOf t, f.name, f.position⟩) ++
    t.variants.map fun v => ⟨nameOf t, v.name, v.position⟩

def StandsAt (types : List TypeDecl) (type member : String) (p : Position) : Prop :=
  if member = "" then ∃ t ∈ types, nameOf t = type ∧ t.position = p
  else ∃ t ∈ types, nameOf t = type ∧
    ((∃ f ∈ t.fields, f.name = member ∧ f.position = p) ∨
      ∃ v ∈ t.variants, v.name = member ∧ v.position = p)

/-- Behind all members of these names stands one with the same text and other names. -/
def Shadowed (types : List TypeDecl) (type member : String) : Prop :=
  ∃ before x after, types.flatMap members = before ++ x :: after ∧
    x.key = memberKey type member ∧ (x.type, x.name) ≠ (type, member) ∧
    ∀ y ∈ after, (y.type, y.name) ≠ (type, member)

section keys

theorem memberPlaces_eq (t : TypeDecl) :
    memberPlaces t = (members t).map fun x => (x.key, x.position) := by
  simp [memberPlaces, members, Member.key, Function.comp_def]

theorem memberKey_inj {type member type' member' : String} (h : '.' ∉ type.toList)
    (h' : '.' ∉ type'.toList) (hkey : memberKey type member = memberKey type' member') :
    type = type' ∧ member = member' := by
  have hchars : type.toList ++ '.' :: member.toList = type'.toList ++ '.' :: member'.toList := by
    simpa [memberKey] using congrArg String.toList hkey
  have hsame : type.toList = type'.toList := by
    rcases List.append_eq_append_iff.mp hchars with ⟨as, hty, hrest⟩ | ⟨as, hty, hrest⟩
    · cases as with
      | nil => simpa using hty.symm
      | cons c as =>
        obtain ⟨rfl, -⟩ := List.cons.inj hrest
        exact absurd (by simp [hty]) h'
    · cases as with
      | nil => simpa using hty
      | cons c as =>
        obtain ⟨rfl, -⟩ := List.cons.inj hrest
        exact absurd (by simp [hty]) h
  rw [hsame, List.append_cancel_left_eq, List.cons.injEq] at hchars
  exact ⟨String.toList_inj.mp hsame, String.toList_inj.mp hchars.2⟩

theorem exists_last_of_lookup {β : Type} {l : List (String × β)} {k : String} {b : β}
    (h : l.reverse.lookup k = some b) :
    ∃ before after, l = before ++ (k, b) :: after ∧ ∀ p ∈ after, p.1 ≠ k := by
  obtain ⟨after, before, hl, hafter⟩ := List.lookup_eq_some_iff.mp h
  refine ⟨before.reverse, after.reverse, ?_, ?_⟩
  · simpa using List.reverse_eq_append_iff.mp hl
  · intro p hp heq
    have hne := hafter p (List.mem_reverse.mp hp)
    rw [heq] at hne
    simp at hne

end keys

section positions

variable {types : List TypeDecl} {type member : String}

theorem type_of_mem_members {t : TypeDecl} {x : Member} (h : x ∈ members t) : x.type = nameOf t := by
  rcases List.mem_append.mp h with h | h
  · obtain ⟨f, -, rfl⟩ := List.mem_map.mp h
    rfl
  · obtain ⟨v, -, rfl⟩ := List.mem_map.mp h
    rfl

theorem mem_members_iff {x : Member} : x ∈ types.flatMap members ↔ ∃ t ∈ types, nameOf t = x.type ∧
    ((∃ f ∈ t.fields, f.name = x.name ∧ f.position = x.position) ∨
      ∃ v ∈ t.variants, v.name = x.name ∧ v.position = x.position) := by
  simp only [List.mem_flatMap, members, List.mem_append, List.mem_map]
  apply exists_congr
  intro t
  apply and_congr_right
  intro ht
  constructor
  · rintro (⟨f, hf, rfl⟩ | ⟨v, hv, rfl⟩)
    · exact ⟨rfl, .inl ⟨f, hf, rfl, rfl⟩⟩
    · exact ⟨rfl, .inr ⟨v, hv, rfl, rfl⟩⟩
  · obtain ⟨type, name, position⟩ := x
    rintro ⟨rfl, ⟨f, hf, rfl, rfl⟩ | ⟨v, hv, rfl, rfl⟩⟩
    · exact .inl ⟨f, hf, rfl⟩
    · exact .inr ⟨v, hv, rfl⟩

theorem standsAt_of_mem {x : Member} (hx : x ∈ types.flatMap members) (hne : x.name ≠ "") :
    StandsAt types x.type x.name x.position := by
  rw [StandsAt, if_neg hne]
  exact mem_members_iff.mp hx

theorem positionOf_cases (types : List TypeDecl) (type member : String) :
    (∃ before x after, types.flatMap members = before ++ x :: after ∧
      x.key = memberKey type member ∧ (∀ y ∈ after, y.key ≠ memberKey type member) ∧
      positionOf types type member = x.position) ∨
    (∀ x ∈ types.flatMap members, x.key ≠ memberKey type member) ∧
      positionOf types type member =
        ((types.map fun t => (nameOf t, t.position)).reverse.lookup type).getD {} := by
  have hplaces : types.flatMap memberPlaces =
      (types.flatMap members).map fun x => (x.key, x.position) := by
    rw [List.map_flatMap]
    exact List.flatMap_congr fun t _ => memberPlaces_eq t
  rw [positionOf]
  cases hlookup : (types.flatMap memberPlaces).reverse.lookup (memberKey type member) with
  | some p =>
    obtain ⟨before, after, hl, hafter⟩ := exists_last_of_lookup hlookup
    rw [hplaces] at hl
    obtain ⟨before', rest, hsplit, rfl, hrest⟩ := List.map_eq_append_iff.mp hl
    obtain ⟨x, after', rfl, hx, rfl⟩ := List.map_eq_cons_iff.mp hrest
    obtain ⟨hkey, rfl⟩ := Prod.mk.inj hx
    refine .inl ⟨before', x, after', hsplit, hkey, ?_, rfl⟩
    intro y hy
    exact hafter _ (List.mem_map_of_mem hy)
  | none =>
    refine .inr ⟨?_, rfl⟩
    intro x hx
    have hne := List.lookup_eq_none_iff.mp hlookup (x.key, x.position)
      (by rw [hplaces, List.mem_reverse]; exact List.mem_map_of_mem hx)
    exact (bne_iff_ne.mp hne).symm

variable (hnames : ∀ x ∈ types.flatMap members, x.name ≠ "")
include hnames

theorem standsAt_of_not_shadowed
    (habout : ∃ t ∈ types, nameOf t = type ∧
      (member = "" ∨ member ∈ (members t).map (·.name)))
    (h : ¬ Shadowed types type member) : StandsAt types type member (positionOf types type member) := by
  rcases positionOf_cases types type member with
    ⟨before, x, after, hsplit, hkey, hafter, hpos⟩ | ⟨hnone, hpos⟩
  · have hx : x ∈ types.flatMap members := by simp [hsplit]
    have hsame : (x.type, x.name) = (type, member) := by
      by_contra hne
      refine h ⟨before, x, after, hsplit, hkey, hne, ?_⟩
      intro y hy heq
      obtain ⟨hty, hname⟩ := Prod.mk.inj heq
      exact hafter y hy (by rw [Member.key, hty, hname])
    obtain ⟨rfl, rfl⟩ := Prod.mk.inj hsame
    rw [hpos]
    exact standsAt_of_mem hx (hnames x hx)
  · obtain ⟨t, ht, rfl, hmember⟩ := habout
    rcases hmember with rfl | hmember
    · rw [StandsAt, if_pos rfl, hpos]
      cases hlookup : (types.map fun t => (nameOf t, t.position)).reverse.lookup (nameOf t) with
      | none =>
        have hne := List.lookup_eq_none_iff.mp hlookup (nameOf t, t.position)
          (List.mem_reverse.mpr (List.mem_map_of_mem ht))
        simp at hne
      | some p =>
        obtain ⟨before, after, hl, -⟩ := exists_last_of_lookup hlookup
        have hmem : (nameOf t, p) ∈ types.map fun t => (nameOf t, t.position) := by simp [hl]
        obtain ⟨t', ht', heq⟩ := List.mem_map.mp hmem
        obtain ⟨hname, rfl⟩ := Prod.mk.inj heq
        exact ⟨t', ht', hname, rfl⟩
    · obtain ⟨x, hx, rfl⟩ := List.mem_map.mp hmember
      have hx' : x ∈ types.flatMap members := List.mem_flatMap.mpr ⟨t, ht, hx⟩
      exact absurd (by rw [Member.key, type_of_mem_members hx]) (hnone x hx')

theorem standsAt_of_shadowed (h : Shadowed types type member) :
    ∃ type' member', (type', member') ≠ (type, member) ∧
      memberKey type' member' = memberKey type member ∧ member' ≠ "" ∧
      StandsAt types type' member' (positionOf types type member) := by
  obtain ⟨before, x, after, hsplit, hkey, hne, hafter⟩ := h
  rcases positionOf_cases types type member with
    ⟨before', y, after', hsplit', hkey', hafter', hpos⟩ | ⟨hnone, -⟩
  · have hy : y ∈ types.flatMap members := by simp [hsplit']
    refine ⟨y.type, y.name, ?_, hkey', hnames y hy, hpos ▸ standsAt_of_mem hy (hnames y hy)⟩
    -- the last member with the text is `x` or stands behind it
    rw [hsplit] at hsplit'
    rcases List.append_eq_append_iff.mp hsplit' with ⟨as, -, hrest⟩ | ⟨as, -, hrest⟩
    · cases as with
      | nil =>
        obtain ⟨rfl, -⟩ := List.cons.inj hrest
        exact hne
      | cons z as =>
        obtain ⟨rfl, rfl⟩ := List.cons.inj hrest
        exact hafter y (by simp)
    · cases as with
      | nil =>
        obtain ⟨rfl, -⟩ := List.cons.inj hrest
        exact hne
      | cons z as =>
        obtain ⟨rfl, rfl⟩ := List.cons.inj hrest
        exact absurd hkey (hafter' x (by simp))
  · exact absurd hkey (hnone x (by simp [hsplit]))

omit hnames in
theorem not_shadowed_of_dotless (hdots : ∀ t ∈ types, '.' ∉ (nameOf t).toList)
    (htype : ∃ t ∈ types, nameOf t = type) : ¬ Shadowed types type member := by
  rintro ⟨before, x, after, hsplit, hkey, hne, -⟩
  obtain ⟨t, ht, hx, -⟩ := mem_members_iff.mp (by simp [hsplit] : x ∈ types.flatMap members)
  obtain ⟨t', ht', rfl⟩ := htype
  obtain ⟨hty, hname⟩ := memberKey_inj (hx ▸ hdots t ht) (hdots t' ht') hkey
  exact hne (by rw [hty, hname])

end positions

section names

variable {sizes : List (String × UInt32)} {declared : List String}

theorem placeFields_names {type : String} {fs : List FieldDecl} {e e' : Extent}
    {fields : List FieldDraft} (h : placeFields sizes declared type e fs = .ok (fields, e')) :
    fields.map (·.name) = fs.map (·.name) ∧ ∀ f ∈ fs, f.name ≠ "" := by
  induction fs generalizing e fields with
  | nil =>
    obtain ⟨rfl, -⟩ := Prod.mk.inj (Except.ok.inj h)
    exact ⟨rfl, by simp⟩
  | cons f fs ih =>
    obtain ⟨hname, ty, size, align, rest, -, hrest, rfl⟩ := placeFields_cons_iff.mp h
    obtain ⟨hsame, hne⟩ := ih hrest
    exact ⟨by rw [List.map_cons, List.map_cons, hsame], List.forall_mem_cons.mpr ⟨hname, hne⟩⟩

theorem placeVariants_names {type : String} {vs : List VariantDecl} {e e' : Extent}
    {variants : List VariantDraft}
    (h : placeVariants sizes declared type e vs = .ok (variants, e')) :
    variants.map (·.name) = vs.map (·.name) ∧ ∀ v ∈ vs, v.name ≠ "" := by
  induction vs generalizing e variants with
  | nil =>
    obtain ⟨rfl, -⟩ := Prod.mk.inj (Except.ok.inj h)
    exact ⟨rfl, by simp⟩
  | cons v vs ih =>
    obtain ⟨hname, payload, e₁, rest, -, hrest, rfl⟩ := placeVariants_cons_iff.mp h
    obtain ⟨hsame, hne⟩ := ih hrest
    exact ⟨by rw [List.map_cons, List.map_cons, hsame], List.forall_mem_cons.mpr ⟨hname, hne⟩⟩

theorem placeDef_names {t : TypeDecl} {s : DefDraft} {n : Nat}
    (h : placeDef sizes declared t = .ok (s, n)) :
    s.name = nameOf t ∧ s.body.memberNames = (members t).map (·.name) ∧
      ∀ x ∈ members t, x.name ≠ "" := by
  rcases placeDef_eq_ok_iff.mp h with
    ⟨hstruct, -, hvariants, fields, e, hfields, rfl, -⟩ |
    ⟨hstruct, -, hfields, variants, e, hvariants, rfl, -⟩
  · obtain ⟨hsame, hne⟩ := placeFields_names hfields
    refine ⟨by rw [nameOf, if_neg hstruct], ?_, ?_⟩
    · simp [BodyDraft.memberNames, members, hvariants, hsame, Function.comp_def]
    · simpa [members, hvariants] using hne
  · obtain ⟨hsame, hne⟩ := placeVariants_names hvariants
    refine ⟨by rw [nameOf, if_pos hstruct], ?_, ?_⟩
    · simp [BodyDraft.memberNames, members, hfields, hsame, Function.comp_def]
    · simpa [members, hfields] using hne

theorem placeDefs_names {ts : List TypeDecl} {ss : List DefDraft} {n : Nat}
    (h : placeDefs declared sizes ts = .ok (ss, n)) :
    (∀ s ∈ ss, ∃ t ∈ ts, s.name = nameOf t ∧ s.body.memberNames = (members t).map (·.name)) ∧
      ∀ x ∈ ts.flatMap members, x.name ≠ "" := by
  induction ts generalizing sizes ss n with
  | nil =>
    obtain ⟨rfl, -⟩ := Prod.mk.inj (Except.ok.inj h)
    simp
  | cons t ts ih =>
    obtain ⟨s, k, rest, more, hs, hrest, rfl, -⟩ := placeDefs_cons_iff.mp h
    obtain ⟨hname, hmembers, hne⟩ := placeDef_names hs
    obtain ⟨hdefs, hne'⟩ := ih hrest
    constructor
    · rw [List.forall_mem_cons]
      refine ⟨⟨t, List.mem_cons_self, hname, hmembers⟩, ?_⟩
      intro s' hs'
      obtain ⟨t', ht', hsame⟩ := hdefs s' hs'
      exact ⟨t', List.mem_cons_of_mem _ ht', hsame⟩
    · rw [List.flatMap_cons, List.forall_mem_append]
      exact ⟨hne, hne'⟩

end names

end Placement

open Placement

theorem Description.build_error {d : Description} {draft : Draft} {auto : Nat}
    {errors : List ValidationError} (hplace : d.place = .ok (draft, auto))
    (hbuild : draft.build = .error errors) : d.build = .error (d.locate errors) := by
  rw [Description.build, hplace, ok_bind]
  simp only [hbuild]
  rfl

theorem load_error {source : List UInt8} {d : Description} {e : Located}
    (hread : Load.read source = .ok d) (hbuild : d.build = .error e) :
    load source = .error { fault := e.fault, position := e.position, source } := by
  have h : (Load.read source).bind Description.build = .error e := by
    rw [hread]
    exact hbuild
  unfold load
  rw [h]

/-- The first error is placed at a declaration that it is about, unless a later member has the text
of its names; then it is placed at such a member. -/
theorem failures_located {d : Description} {draft : Draft} {auto : Nat}
    {errors : List ValidationError} (hplace : d.place = .ok (draft, auto))
    (hbuild : draft.build = .error errors) :
    ∃ e rest p, errors = e :: rest ∧ d.build = .error ⟨.invalid errors, p⟩ ∧
      (∀ source, Load.read source = .ok d →
        load source = .error { fault := .invalid errors, position := p, source }) ∧
      (¬ Shadowed d.types e.type e.member → StandsAt d.types e.type e.member p) ∧
      (Shadowed d.types e.type e.member → ∃ type member, (type, member) ≠ (e.type, e.member) ∧
        memberKey type member = memberKey e.type e.member ∧ member ≠ "" ∧
        StandsAt d.types type member p) ∧
      ((∀ t ∈ d.types, '.' ∉ (nameOf t).toList) → ¬ Shadowed d.types e.type e.member) := by
  obtain ⟨hne, habout⟩ := Draft.exists_spec_of_build hbuild
  obtain ⟨-, -, ss, hss, rfl⟩ := Description.place_eq_ok_iff.mp hplace
  obtain ⟨hdefs, hnames⟩ := placeDefs_names hss
  obtain ⟨e, rest, rfl⟩ := List.exists_cons_of_ne_nil hne
  obtain ⟨s, hs, htype, hmember⟩ := habout e List.mem_cons_self
  obtain ⟨t, ht, hname, hmembers⟩ := hdefs s hs
  rw [hmembers] at hmember
  have hstands : ∃ t ∈ d.types, nameOf t = e.type ∧
      (e.member = "" ∨ e.member ∈ (members t).map (·.name)) :=
    ⟨t, ht, (htype.trans hname).symm, hmember⟩
  have herror := Description.build_error hplace hbuild
  refine ⟨e, rest, positionOf d.types e.type e.member, rfl, herror, ?_, ?_, ?_, ?_⟩
  · intro source hread
    exact load_error hread herror
  · exact standsAt_of_not_shadowed hnames hstands
  · exact standsAt_of_shadowed hnames
  · intro hdots
    exact not_shadowed_of_dotless hdots ⟨t, ht, (htype.trans hname).symm⟩

def overlapText : String :=
  "module: m
types:
- struct: A
  fields:
  - name: x
    type: u32
  - name: y
    type: u16
    offset: 2
"

def overlapping : Description where
  module := "m"
  types :=
    [{ struct := "A"
       fields :=
         [{ name := "x", type := "u32", position := ⟨5, 5⟩ },
           { name := "y", type := "u16", offset := some 2, position := ⟨7, 5⟩ }]
       position := ⟨3, 3⟩ }]
  position := ⟨1, 1⟩

def overlapDraft : Draft where
  name := "m"
  defs := [⟨"A", 4, .struct [⟨"x", 0, .scalar .u32, 0⟩, ⟨"y", 2, .scalar .u16, 0⟩]⟩]

theorem failures_located_overlap :
    overlapping.place = .ok (overlapDraft, 1) ∧
      overlapDraft.build = .error [{ flaw := .overlap "x", type := "A", member := "y" }] ∧
      StandsAt overlapping.types "A" "y" ⟨7, 5⟩ ∧
      load overlapText.toByteArray.data.toList = .error
        { fault := .invalid [{ flaw := .overlap "x", type := "A", member := "y" }]
          position := ⟨7, 5⟩
          source := overlapText.toByteArray.data.toList } := by
  have hplace : overlapping.place = .ok (overlapDraft, 1) := by decide +kernel
  have hbuild : overlapDraft.build =
      .error [{ flaw := .overlap "x", type := "A", member := "y" }] := by cbv
  have hread : Load.read overlapText.toByteArray.data.toList = .ok overlapping := by
    decide +kernel
  obtain ⟨e, rest, p, herrors, -, hload, hstands, -, hdots⟩ := failures_located hplace hbuild
  obtain ⟨rfl, rfl⟩ := List.cons.inj herrors
  have hp := hstands (hdots (by decide))
  obtain rfl : p = ⟨7, 5⟩ := by
    obtain ⟨t, ht, -, hmember⟩ := (if_neg (by decide : ¬ "y" = "")).mp hp
    obtain rfl := List.mem_singleton.mp ht
    simpa [eq_comm] using hmember
  exact ⟨hplace, hbuild, hp, hload _ hread⟩

def dottedText : String :=
  "module: m
types:
- struct: a
  fields:
  - name: b.c
    type: u32
    offset: 2
- struct: a.b
  fields:
  - name: c
    type: u32
"

def dotted : Description where
  module := "m"
  types :=
    [{ struct := "a"
       fields := [{ name := "b.c", type := "u32", offset := some 2, position := ⟨5, 5⟩ }]
       position := ⟨3, 3⟩ },
      { struct := "a.b"
        fields := [{ name := "c", type := "u32", position := ⟨10, 5⟩ }]
        position := ⟨8, 3⟩ }]
  position := ⟨1, 1⟩

def dottedDraft : Draft where
  name := "m"
  defs :=
    [⟨"a", 8, .struct [⟨"b.c", 2, .scalar .u32, 0⟩]⟩, ⟨"a.b", 4, .struct [⟨"c", 0, .scalar .u32, 0⟩]⟩]

theorem dotted_member_misplaced :
    Load.read dottedText.toByteArray.data.toList = .ok dotted ∧
      dotted.place = .ok (dottedDraft, 1) ∧
      dottedDraft.build = .error [{ flaw := .unalignedOffset 2 4, type := "a", member := "b.c" }] ∧
      load dottedText.toByteArray.data.toList = .error
        { fault := .invalid [{ flaw := .unalignedOffset 2 4, type := "a", member := "b.c" }]
          position := ⟨10, 5⟩
          source := dottedText.toByteArray.data.toList } ∧
      ¬ StandsAt dotted.types "a" "b.c" ⟨10, 5⟩ := by
  have hread : Load.read dottedText.toByteArray.data.toList = .ok dotted := by decide +kernel
  have hplace : dotted.place = .ok (dottedDraft, 1) := by decide +kernel
  have hbuild : dottedDraft.build =
      .error [{ flaw := .unalignedOffset 2 4, type := "a", member := "b.c" }] := by cbv
  refine ⟨hread, hplace, hbuild, ?_, ?_⟩
  · exact load_error hread (Description.build_error hplace hbuild)
  · rw [StandsAt, if_neg (by decide)]
    simp [dotted, nameOf]

end WordLayout
