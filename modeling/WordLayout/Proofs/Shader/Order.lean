import Mathlib
import WordLayout.Proofs.Shader.Names
import WordLayout.Proofs.Shader.Rendering
import WordLayout.Proofs.Shader.Widen
import WordLayout.Proofs.Validation.Acceptance

/-!
The order of an emitted program. Handles come first, a definition's declarations and accessors come
after those of the definitions it holds, and no item uses a name that is declared later.
-/

namespace WordLayout.Shader

open Validation

def TypeName.uses : TypeName → List String
  | .scalar _ | .vector .. => []
  | .struct name => [name]
  | .handle name => [name ++ "Ref"]

namespace Language

def sourceUses (l : Language) : Source → List String
  | .scalar _ => []
  | .vector type _ => type.uses
  | .nested name _ => [name ++ "_read", l.handleMaker name]
  | .handle name _ => [l.handleMaker name]

def stmtUses (l : Language) (buffer : String) : Stmt → List String
  | .base | .returnStruct => []
  | .load _ | .store .. | .returnTag => [buffer]
  | .declare name => [name]
  | .assign _ source => l.sourceUses source
  | .write name .. => [name ++ "_write", l.handleMaker name]
  | .returnRead name _ => [name ++ "_read", l.handleMaker name]
  | .storeTag constant => [buffer, constant]
  | .returnElement name => [l.handleMaker name, name ++ "_size"]

def signatureUses (f : Function) : List String :=
  (f.owner ++ "Ref") ::
    (match f.extra with
      | .none | .index => []
      | .struct name => [name]) ++
    (match f.result with
      | none => []
      | some type => type.uses)

def itemUses (l : Language) (buffer : String) : Item → List String
  | .struct _ members => members.flatMap (·.2.uses)
  | .function f => signatureUses f ++ f.body.flatMap (l.stmtUses buffer)
  | .comment _ | .blank | .buffer .. | .handle _ | .constant .. | .omitted .. => []

def handleNames (l : Language) (name : String) : List String :=
  if l.handleMaker name = name ++ "Ref" then [name ++ "Ref"]
  else [name ++ "Ref", l.handleMaker name]

theorem handleNames_eq (l : Language) (name : String) :
    l.handleNames name = (name ++ "Ref") :: l.extraNames name := by
  have hne : name ++ "Ref_new" ≠ name ++ "Ref" := by
    rw [Ne, String.append_right_inj]
    decide
  cases l with
  | glsl | wgsl => exact if_pos rfl
  | hlsl => exact if_neg hne

def itemDeclares (l : Language) (buffer : String) : Item → List String
  | .buffer .. =>
    match l with
    | .glsl => [buffer ++ "Buf", buffer]
    | .hlsl | .wgsl => [buffer]
  | .handle name => l.handleNames name
  | item => item.declared?.toList

def declaredBy (l : Language) (buffer : String) (items : List Item) : Set String :=
  {x | ∃ item ∈ items, x ∈ l.itemDeclares buffer item}

/-- Every item uses names that are known or declared by an item before it. -/
def Scoped (l : Language) (buffer : String) : Set String → List Item → Prop
  | _, [] => True
  | known, item :: items =>
    (∀ x ∈ l.itemUses buffer item, x ∈ known) ∧
      l.Scoped buffer (known ∪ {x | x ∈ l.itemDeclares buffer item}) items

section scopes

variable {l : Language} {buffer : String} {known known' : Set String} {items items' : List Item}

theorem Scoped.mono (h : l.Scoped buffer known items) (hk : known ⊆ known') :
    l.Scoped buffer known' items := by
  induction items generalizing known known' with
  | nil => trivial
  | cons item items ih =>
    refine ⟨fun x hx => hk (h.1 x hx), ?_⟩
    exact ih h.2 (Set.union_subset_union_left _ hk)

theorem scoped_of_uses (h : ∀ item ∈ items, ∀ x ∈ l.itemUses buffer item, x ∈ known) :
    l.Scoped buffer known items := by
  induction items with
  | nil => trivial
  | cons item items ih =>
    rw [List.forall_mem_cons] at h
    exact ⟨h.1, (ih h.2).mono Set.subset_union_left⟩

theorem declaredBy_cons (item : Item) :
    l.declaredBy buffer (item :: items) =
      {x | x ∈ l.itemDeclares buffer item} ∪ l.declaredBy buffer items := by
  ext x
  simp [declaredBy]

theorem declaredBy_append :
    l.declaredBy buffer (items ++ items') =
      l.declaredBy buffer items ∪ l.declaredBy buffer items' := by
  ext x
  simp [declaredBy, or_and_right, exists_or]

theorem scoped_append :
    l.Scoped buffer known (items ++ items') ↔
      l.Scoped buffer known items ∧
        l.Scoped buffer (known ∪ l.declaredBy buffer items) items' := by
  induction items generalizing known with
  | nil => simp [Scoped, declaredBy]
  | cons item items ih =>
    rw [List.cons_append, Scoped, Scoped, ih, declaredBy_cons, Set.union_assoc, and_assoc]

theorem scoped_flatMap {defs : List TypeDef} {g : TypeDef → List Item}
    (h : ∀ before d after, defs = before ++ d :: after →
      l.Scoped buffer (known ∪ l.declaredBy buffer (before.flatMap g)) (g d)) :
    l.Scoped buffer known (defs.flatMap g) := by
  have hrest : ∀ rest before, defs = before ++ rest →
      l.Scoped buffer (known ∪ l.declaredBy buffer (before.flatMap g)) (rest.flatMap g) := by
    intro rest
    induction rest with
    | nil =>
      intro before _
      trivial
    | cons d rest ih =>
      intro before hdefs
      have hnext := ih (before ++ [d]) (by simp [hdefs])
      rw [List.flatMap_append, List.flatMap_singleton, declaredBy_append,
        ← Set.union_assoc] at hnext
      exact scoped_append.mpr ⟨h before d rest hdefs, hnext⟩
  have hall := hrest defs [] rfl
  simpa [declaredBy] using hall

theorem Scoped.split (h : l.Scoped buffer known items) {before after : List Item} {item : Item}
    (hitems : items = before ++ item :: after) {x : String} (hx : x ∈ l.itemUses buffer item) :
    x ∈ known ∨ ∃ i ∈ before, x ∈ l.itemDeclares buffer i := by
  rw [hitems] at h
  exact (scoped_append.mp h).2.1 x hx

end scopes

end Language

/-- The names that are known when the declarations of a definition come: all handles, the buffer,
and the structs among the definitions before it. -/
structure DeclarationScope (m : Module) (l : Language) (buffer : String) (before : List TypeDef)
    (known : Set String) : Prop where
  buffer_mem : buffer ∈ known
  handle_mem : ∀ d ∈ m.defs, ∀ x ∈ l.itemDeclares buffer (.handle d.name), x ∈ known
  struct_mem : ∀ e ∈ before, ∀ fields, e.body = .struct fields → e.name ∈ known

structure AccessorScope (m : Module) (l : Language) (buffer : String) (before : List TypeDef)
    (known : Set String) : Prop extends DeclarationScope m l buffer m.defs known where
  tag_mem : ∀ d ∈ m.defs, ∀ variants, d.body = .union variants → ∀ v ∈ variants,
    tagName d v ∈ known
  read_mem : ∀ e ∈ before, ∀ fields, e.body = .struct fields → e.name ++ "_read" ∈ known
  write_mem : m.writable = true → ∀ e ∈ before, ∀ fields, e.body = .struct fields →
    e.name ++ "_write" ∈ known

section definitions

variable {m : Module} {l : Language} {buffer : String} {known : Set String}
  {before after : List TypeDef} {d e : TypeDef}

theorem DeclarationScope.ref_mem (hs : DeclarationScope m l buffer before known)
    (hd : d ∈ m.defs) : d.name ++ "Ref" ∈ known := by
  apply hs.handle_mem d hd
  simp [Language.itemDeclares, Language.handleNames_eq]

theorem DeclarationScope.maker_mem (hs : DeclarationScope m l buffer before known)
    (hd : d ∈ m.defs) : l.handleMaker d.name ∈ known := by
  apply hs.handle_mem d hd
  cases l <;>
    simp [Language.itemDeclares, Language.handleNames_eq, Language.handleMaker, Language.extraNames]

theorem exists_of_mem_uses {ty : Ty} (hk : ty.Known m) {x : String}
    (hx : x ∈ (memberType m ty).uses) :
    (∃ t, ty = .inline t ∧ x = m.nameOf t) ∨
      ∃ t e, ty = .ref t ∧ m.def? t = some e ∧ x = e.name ++ "Ref" := by
  cases ty with
  | scalar k => simp [memberType, TypeName.uses] at hx
  | vector k lanes =>
    by_cases h1 : lanes = 1 <;> simp [memberType, TypeName.uses, h1] at hx
  | inline t => exact .inl ⟨t, rfl, by simpa [memberType, TypeName.uses] using hx⟩
  | ref t =>
    obtain ⟨e, he, -⟩ := hk
    refine .inr ⟨t, e, rfl, he, ?_⟩
    rw [← nameOf_eq he]
    simpa [memberType, TypeName.uses] using hx
  | missing => cases hk

variable (hv : m.validate = []) (hdefs : m.defs = before ++ d :: after)
include hv hdefs

theorem scoped_declarations (hs : DeclarationScope m l buffer before known) :
    l.Scoped buffer known (declarations m d) := by
  have hd : d ∈ m.defs := by simp [hdefs]
  apply Language.scoped_append.mpr
  constructor
  · apply Language.scoped_of_uses
    cases hb : d.body with
    | struct fields =>
      simp only [List.forall_mem_singleton]
      intro x hx
      simp only [Language.itemUses, List.mem_flatMap, List.mem_map, exists_exists_and_eq_and] at hx
      obtain ⟨f, hf, hx⟩ := hx
      rcases exists_of_mem_uses (field_known hv hd hb hf).1 hx with
        ⟨t, ht, rfl⟩ | ⟨t, e, ht, he, rfl⟩
      · have hdep := inline_mem_dependencies hv hd hb hf ht
        obtain ⟨e, inner, he, hbe, hmem⟩ := struct_of_dependency hv hdefs hdep
        rw [nameOf_eq he]
        exact hs.struct_mem e hmem inner hbe
      · exact hs.ref_mem (m.mem_of_def? he)
    | union variants =>
      intro item hi x hx
      obtain ⟨p, -, rfl⟩ := List.mem_map.mp hi
      cases hx
    | missing =>
      intro item hi
      cases hi
  · have href := hs.ref_mem hd
    have hmaker := hs.maker_mem hd
    simp [Language.Scoped, Language.itemUses, Language.itemDeclares, Item.declared?,
      Language.signatureUses, indexFunction, TypeName.uses, Language.stmtUses, href, hmaker]

section accessors

variable (hs : AccessorScope m l buffer before known)
include hs

theorem dependency_mem {t : Handle} (ht : t ∈ dependencies m d) :
    m.nameOf t ∈ known ∧ l.handleMaker (m.nameOf t) ∈ known ∧
      m.nameOf t ++ "_read" ∈ known ∧ (m.writable = true → m.nameOf t ++ "_write" ∈ known) := by
  obtain ⟨e, fields, he, hbe, hmem⟩ := struct_of_dependency hv hdefs ht
  have hdef := m.mem_of_def? he
  rw [nameOf_eq he]
  exact ⟨hs.struct_mem e hdef fields hbe, hs.maker_mem hdef, hs.read_mem e hmem fields hbe,
    fun hwr => hs.write_mem hwr e hmem fields hbe⟩

theorem sourceUses_subset {fields : List Field} (hb : d.body = .struct fields) {f : Field}
    (hf : f ∈ fields) : ∀ x ∈ l.sourceUses (fieldSource m f), x ∈ known := by
  have hd : d ∈ m.defs := by simp [hdefs]
  have hk := (field_known hv hd hb hf).1
  intro x hx
  cases ht : f.ty with
  | scalar k => simp [fieldSource, ht, Language.sourceUses] at hx
  | vector k lanes =>
    by_cases h1 : lanes = 1 <;>
      simp [fieldSource, ht, Language.sourceUses, memberType, TypeName.uses, h1] at hx
  | inline t =>
    obtain ⟨-, hmaker, hread, -⟩ :=
      dependency_mem hv hdefs hs (inline_mem_dependencies hv hd hb hf ht)
    simp only [fieldSource, ht, Language.sourceUses, List.mem_cons, List.not_mem_nil,
      or_false] at hx
    rcases hx with rfl | rfl
    · exact hread
    · exact hmaker
  | ref t =>
    rw [ht] at hk
    obtain ⟨e, he, -⟩ := hk
    simp only [fieldSource, ht, Language.sourceUses, List.mem_singleton, nameOf_eq he] at hx
    rw [hx]
    exact hs.maker_mem (m.mem_of_def? he)
  | missing =>
    rw [ht] at hk
    cases hk

theorem readFunction_uses {fields : List Field} (hb : d.body = .struct fields) :
    ∀ x ∈ l.itemUses buffer (.function (readFunction m d fields)), x ∈ known := by
  have hd : d ∈ m.defs := by simp [hdefs]
  have hname := hs.struct_mem d hd fields hb
  intro x hx
  rcases List.mem_append.mp hx with hx | hx
  · simp only [Language.signatureUses, readFunction, TypeName.uses, List.mem_append,
      List.mem_cons, List.not_mem_nil, or_false] at hx
    rcases hx with rfl | rfl
    · exact hs.ref_mem hd
    · exact hname
  · obtain ⟨s, hst, hx⟩ := List.mem_flatMap.mp hx
    simp only [readFunction, readBody, baseStmts, List.mem_append, List.mem_map,
      List.mem_ite_nil_right, List.mem_singleton] at hst
    rcases hst with (((⟨-, rfl⟩ | ⟨g, -, rfl⟩) | rfl) | ⟨f, hf, rfl⟩) | rfl
    · cases hx
    · obtain rfl := List.mem_singleton.mp hx
      exact hs.buffer_mem
    · obtain rfl := List.mem_singleton.mp hx
      exact hname
    · exact sourceUses_subset hv hdefs hs hb hf x hx
    · cases hx

theorem writeFunction_uses (hwr : m.writable = true) {fields : List Field}
    (hb : d.body = .struct fields) (maskUnsigned : Bool) :
    ∀ x ∈ l.itemUses buffer (.function (writeFunction m maskUnsigned d fields)), x ∈ known := by
  have hd : d ∈ m.defs := by simp [hdefs]
  intro x hx
  rcases List.mem_append.mp hx with hx | hx
  · simp only [Language.signatureUses, writeFunction, List.mem_append,
      List.mem_cons, List.not_mem_nil, or_false] at hx
    rcases hx with rfl | rfl
    · exact hs.ref_mem hd
    · exact hs.struct_mem d hd fields hb
  · obtain ⟨s, hst, hx⟩ := List.mem_flatMap.mp hx
    simp only [writeFunction, writeBody, baseStmts, groupStmts, List.mem_append, List.mem_flatMap,
      List.mem_filterMap, List.mem_ite_nil_right, List.mem_ite_nil_left,
      List.mem_singleton] at hst
    rcases hst with ⟨-, rfl⟩ | ⟨g, -, ⟨p, -, hp⟩ | ⟨-, rfl⟩⟩
    · cases hx
    · obtain ⟨f, hf, hp⟩ := Option.bind_eq_some_iff.mp hp
      cases ht : f.ty with
      | inline t =>
        simp only [ht, Option.some.injEq] at hp
        have hmem := List.mem_of_getElem? hf
        obtain ⟨-, hmaker, -, hwrite⟩ :=
          dependency_mem hv hdefs hs (inline_mem_dependencies hv hd hb hmem ht)
        simp only [← hp, Language.stmtUses, List.mem_cons, List.not_mem_nil, or_false] at hx
        rcases hx with rfl | rfl
        · exact hwrite hwr
        · exact hmaker
      | _ => simp [ht] at hp
    · obtain rfl := List.mem_singleton.mp hx
      exact hs.buffer_mem

theorem variantRead_uses {variants : List Variant} (hb : d.body = .union variants) {v : Variant}
    (hvar : v ∈ variants) :
    ∀ item ∈ variantRead m d v, ∀ x ∈ l.itemUses buffer item, x ∈ known := by
  have hd : d ∈ m.defs := by simp [hdefs]
  have href := hs.ref_mem hd
  cases hp : v.payload with
  | struct at_ t =>
    obtain ⟨hname, hmaker, hread, -⟩ :=
      dependency_mem hv hdefs hs (payload_mem_dependencies hv hd hb hvar hp)
    simp [variantRead, hp, Language.itemUses, Language.signatureUses, TypeName.uses,
      Language.stmtUses, href, hname, hmaker, hread]
  | _ => simp [variantRead, hp, Language.itemUses]

theorem variantWrite_uses (hwr : m.writable = true) {variants : List Variant}
    (hb : d.body = .union variants) {v : Variant} (hvar : v ∈ variants) :
    ∀ item ∈ variantWrite m d v, ∀ x ∈ l.itemUses buffer item, x ∈ known := by
  have hd : d ∈ m.defs := by simp [hdefs]
  have href := hs.ref_mem hd
  have hbuffer := hs.buffer_mem
  have htag := hs.tag_mem d hd variants hb v hvar
  cases hp : v.payload with
  | struct at_ t =>
    obtain ⟨hname, hmaker, -, hwrite⟩ :=
      dependency_mem hv hdefs hs (payload_mem_dependencies hv hd hb hvar hp)
    simp [variantWrite, hp, Language.itemUses, Language.signatureUses,
      Language.stmtUses, href, hbuffer, htag, hname, hmaker, hwrite hwr]
  | _ =>
    simp [variantWrite, hp, Language.itemUses, Language.signatureUses, Language.stmtUses, href,
      hbuffer, htag]

theorem scoped_accessors (maskUnsigned : Bool) :
    l.Scoped buffer known (accessors m maskUnsigned d) := by
  have hd : d ∈ m.defs := by simp [hdefs]
  apply Language.scoped_of_uses
  intro item hi
  cases hb : d.body with
  | struct fields =>
    simp only [accessors, hb, List.mem_cons, List.mem_ite_nil_right, List.not_mem_nil,
      or_false] at hi
    rcases hi with rfl | ⟨hwr, rfl⟩
    · exact readFunction_uses hv hdefs hs hb
    · exact writeFunction_uses hv hdefs hs hwr hb maskUnsigned
  | union variants =>
    simp only [accessors, hb, List.cons_append, List.mem_cons, List.mem_append, List.mem_flatMap,
      List.mem_ite_nil_right] at hi
    rcases hi with rfl | ⟨v, hvar, hi⟩ | ⟨hwr, v, hvar, hi⟩
    · simp [Language.itemUses, Language.signatureUses, tagFunction, TypeName.uses,
        Language.stmtUses, hs.ref_mem hd, hs.buffer_mem]
    · exact variantRead_uses hv hdefs hs hb hvar item hi
    · exact variantWrite_uses hv hdefs hs hwr hb hvar item hi
  | missing => simp [accessors, hb] at hi

end accessors

end definitions

section programs

variable {m : Module} {o : Options} {before after : List TypeDef} {d e : TypeDef}

def opening (m : Module) (o : Options) : List Item :=
  headerItems o.header ++
    (match o.binding with
      | some b => [.buffer b m.writable, .blank]
      | none => []) ++
    m.defs.map (fun d => .handle d.name)

theorem items_program : (program m o).items =
    opening m o ++ m.defs.flatMap (declarations m) ++
      m.defs.flatMap (accessors m o.maskUnsigned) := rfl

theorem mem_opening_iff {item : Item} :
    item ∈ opening m o ↔ item ∈ headerItems o.header ∨
      (∃ b, o.binding = some b ∧ (item = .buffer b m.writable ∨ item = .blank)) ∨
      ∃ d ∈ m.defs, item = .handle d.name := by
  cases hb : o.binding <;> simp [opening, hb, eq_comm, or_assoc]

theorem opening_cases {item : Item} (hi : item ∈ opening m o) :
    (∃ text, item = .comment text) ∨ item = .blank ∨ (∃ b, item = .buffer b m.writable) ∨
      ∃ d ∈ m.defs, item = .handle d.name := by
  rcases mem_opening_iff.mp hi with hi | ⟨b, -, rfl | rfl⟩ | hhandle
  · simp only [headerItems, List.mem_append, List.mem_map, List.mem_singleton] at hi
    rcases hi with ⟨line, -, rfl⟩ | rfl
    · exact .inl ⟨_, rfl⟩
    · exact .inr (.inl rfl)
  · exact .inr (.inr (.inl ⟨b, rfl⟩))
  · exact .inr (.inl rfl)
  · exact .inr (.inr (.inr hhandle))

theorem item_cases {item : Item} (hi : item ∈ (program m o).items) :
    (∃ text, item = .comment text) ∨ item = .blank ∨ (∃ b, item = .buffer b m.writable) ∨
      ∃ d ∈ m.defs, item = .handle d.name ∨ item ∈ declarations m d ∨
        item ∈ accessors m o.maskUnsigned d := by
  rcases List.mem_append.mp (items_program ▸ hi) with hi | hi
  · rcases List.mem_append.mp hi with hi | hi
    · rcases opening_cases hi with h | h | h | ⟨d, hd, h⟩
      · exact .inl h
      · exact .inr (.inl h)
      · exact .inr (.inr (.inl h))
      · exact .inr (.inr (.inr ⟨d, hd, .inl h⟩))
    · obtain ⟨d, hd, hi⟩ := List.mem_flatMap.mp hi
      exact .inr (.inr (.inr ⟨d, hd, .inr (.inl hi)⟩))
  · obtain ⟨d, hd, hi⟩ := List.mem_flatMap.mp hi
    exact .inr (.inr (.inr ⟨d, hd, .inr (.inr hi)⟩))

theorem itemUses_opening (l : Language) (buffer : String) {item : Item}
    (hi : item ∈ opening m o) : l.itemUses buffer item = [] := by
  rcases opening_cases hi with ⟨text, rfl⟩ | rfl | ⟨b, rfl⟩ | ⟨d, -, rfl⟩
  · rfl
  · rfl
  · rfl
  · rfl

theorem struct_mem_declarations {fields : List Field} (hb : d.body = .struct fields) :
    .struct d.name (fields.map fun f => (f.name, memberType m f.ty)) ∈ declarations m d := by
  simp [declarations, hb]

theorem tag_mem_declarations {variants : List Variant} (hb : d.body = .union variants)
    {v : Variant} (hv : v ∈ variants) : ∃ tag, .constant (tagName d v) tag ∈ declarations m d := by
  obtain ⟨i, hi⟩ := List.getElem?_of_mem hv
  refine ⟨UInt32.ofNat i, ?_⟩
  simp only [declarations, hb, List.mem_append, List.mem_map]
  exact .inl ⟨(v, i), List.mem_zipIdx_iff_getElem?.mpr hi, rfl⟩

theorem function_mem_accessors {maskUnsigned : Bool} {f : Function}
    (hf : f ∈ accessorFunctions m maskUnsigned d) : .function f ∈ accessors m maskUnsigned d := by
  obtain ⟨item, hi, hf⟩ := List.mem_filterMap.mp hf
  cases item with
  | function g =>
    obtain rfl := Option.some.inj hf
    exact hi
  | _ => cases hf

variable {l : Language} {buffer : String} {known : Set String}

theorem DeclarationScope.extend (hs : DeclarationScope m l buffer [] known)
    (before : List TypeDef) :
    DeclarationScope m l buffer before
      (known ∪ l.declaredBy buffer (before.flatMap (declarations m))) := by
  refine ⟨.inl hs.buffer_mem, fun d hd x hx => .inl (hs.handle_mem d hd x hx), ?_⟩
  intro e he fields hb
  refine .inr ⟨_, List.mem_flatMap.mpr ⟨e, he, struct_mem_declarations hb⟩, ?_⟩
  simp [Language.itemDeclares, Item.declared?]

theorem accessorScope_extend (hs : DeclarationScope m l buffer m.defs known)
    (hdecl : l.declaredBy buffer (m.defs.flatMap (declarations m)) ⊆ known)
    (before : List TypeDef) (maskUnsigned : Bool) :
    AccessorScope m l buffer before
      (known ∪ l.declaredBy buffer (before.flatMap (accessors m maskUnsigned))) := by
  have hfunction : ∀ e ∈ before, ∀ f ∈ accessorFunctions m maskUnsigned e,
      f.name ∈ l.declaredBy buffer (before.flatMap (accessors m maskUnsigned)) := by
    intro e he f hf
    refine ⟨_, List.mem_flatMap.mpr ⟨e, he, function_mem_accessors hf⟩, ?_⟩
    simp [Language.itemDeclares, Item.declared?]
  refine ⟨⟨.inl hs.buffer_mem, fun d hd x hx => .inl (hs.handle_mem d hd x hx),
    fun e he fields hb => .inl (hs.struct_mem e he fields hb)⟩, ?_, ?_, ?_⟩
  · intro d hd variants hb v hv
    obtain ⟨tag, htag⟩ := tag_mem_declarations (m := m) hb hv
    refine .inl (hdecl ⟨_, List.mem_flatMap.mpr ⟨d, hd, htag⟩, ?_⟩)
    simp [Language.itemDeclares, Item.declared?]
  · intro e he fields hb
    exact .inr (hfunction e he _ (readFunction_mem hb maskUnsigned))
  · intro hwr e he fields hb
    exact .inr (hfunction e he _ (writeFunction_mem hwr hb maskUnsigned))

theorem openingScope (m : Module) (l : Language) (o : Options) :
    DeclarationScope m l (bufferName m o) []
      ({x | o.binding = none ∧ x = bufferName m o} ∪
        l.declaredBy (bufferName m o) (opening m o)) := by
  refine ⟨?_, ?_, nofun⟩
  · cases hb : o.binding with
    | none => exact .inl ⟨rfl, rfl⟩
    | some b =>
      refine .inr ⟨_, mem_opening_iff.mpr (.inr (.inl ⟨b, hb, .inl rfl⟩)), ?_⟩
      cases l <;> simp [Language.itemDeclares]
  · intro d hd x hx
    exact .inr ⟨_, mem_opening_iff.mpr (.inr (.inr ⟨d, hd, rfl⟩)), hx⟩

theorem scoped_program (l : Language) (hv : m.validate = []) :
    l.Scoped (bufferName m o) {x | o.binding = none ∧ x = bufferName m o}
      (program m o).items := by
  have hopen := openingScope m l o
  have hdecl := hopen.extend m.defs
  rw [items_program, Language.scoped_append, Language.scoped_append, Language.declaredBy_append,
    ← Set.union_assoc]
  refine ⟨⟨?_, ?_⟩, ?_⟩
  · apply Language.scoped_of_uses
    intro item hi x hx
    rw [itemUses_opening l _ hi] at hx
    cases hx
  · apply Language.scoped_flatMap
    intro before d after hdefs
    exact scoped_declarations hv hdefs (hopen.extend before)
  · apply Language.scoped_flatMap
    intro before d after hdefs
    exact scoped_accessors hv hdefs
      (accessorScope_extend hdecl Set.subset_union_right before o.maskUnsigned) o.maskUnsigned

end programs

def Item.struct? : Item → Option String
  | .struct name _ => some name
  | _ => none

def Output.structs (out : Output) : List String := out.program.items.filterMap Item.struct?

section precedence

variable {m : Module} {o : Options} {before after : List TypeDef} {d e : TypeDef}

theorem pair_sublist_flatMap {β : Type} {defs : List TypeDef} {g : TypeDef → List β} {x y : β}
    (hdefs : defs = before ++ d :: after) (he : e ∈ before) (hx : x ∈ g e) (hy : y ∈ g d) :
    [x, y].Sublist (defs.flatMap g) := by
  have hleft : [x].Sublist (before.flatMap g) :=
    List.singleton_sublist.mpr (List.mem_flatMap.mpr ⟨e, he, hx⟩)
  have hright : [y].Sublist ((d :: after).flatMap g) :=
    List.singleton_sublist.mpr (List.mem_flatMap.mpr ⟨d, List.mem_cons_self, hy⟩)
  rw [hdefs, List.flatMap_append]
  exact hleft.append hright

theorem functions_precede (hdefs : m.defs = before ++ d :: after) (he : e ∈ before)
    {f g : Function} (hf : f ∈ accessorFunctions m o.maskUnsigned e)
    (hg : g ∈ accessorFunctions m o.maskUnsigned d) :
    [f.name, g.name].Sublist ((program m o).functions.map (·.name)) := by
  have hpair := pair_sublist_flatMap hdefs he hf hg
  rw [functions_program]
  exact (hpair.trans (List.sublist_append_right _ _)).map (·.name)

theorem structs_precede (hdefs : m.defs = before ++ d :: after) (he : e ∈ before)
    {fields inner : List Field} (hb : d.body = .struct fields) (hbe : e.body = .struct inner) :
    [e.name, d.name].Sublist ((program m o).items.filterMap Item.struct?) := by
  have hpair := pair_sublist_flatMap hdefs he (struct_mem_declarations (m := m) hbe)
    (struct_mem_declarations hb)
  have hitems := (hpair.trans (List.sublist_append_right (opening m o) _)).trans
    (List.sublist_append_left _ (m.defs.flatMap (accessors m o.maskUnsigned)))
  exact hitems.filterMap Item.struct?

theorem handle_before (hd : d ∈ m.defs) {before after : List Item} {item : Item}
    (hitems : (program m o).items = before ++ item :: after)
    (hitem : item.struct?.isSome = true ∨ item.function?.isSome = true) :
    .handle d.name ∈ before := by
  have hmem : .handle d.name ∈ opening m o := mem_opening_iff.mpr (.inr (.inr ⟨d, hd, rfl⟩))
  have hnot : item ∉ opening m o := by
    intro hi
    rcases opening_cases hi with ⟨text, rfl⟩ | rfl | ⟨b, rfl⟩ | ⟨d, -, rfl⟩ <;>
      simp [Item.struct?, Item.function?] at hitem
  rw [items_program, List.append_assoc] at hitems
  rcases List.append_eq_append_iff.mp hitems with ⟨mid, rfl, -⟩ | ⟨mid, hopen, hrest⟩
  · exact List.mem_append_left _ hmem
  · cases mid with
    | nil =>
      rw [List.append_nil] at hopen
      rwa [← hopen]
    | cons first mid =>
      obtain ⟨rfl, -⟩ := List.cons.inj hrest
      exact absurd (by simp [hopen]) hnot

theorem Program.Unambiguous.struct_names {p : Program} (hp : p.Unambiguous) :
    (p.items.filterMap Item.struct?).Nodup := by
  rw [List.Nodup, List.pairwise_filterMap]
  refine (List.pairwise_filterMap.mp hp).imp fun {a b} h x hx y hy => ?_
  cases a <;> cases hx
  cases b <;> cases hy
  exact h _ rfl _ rfl

end precedence

end WordLayout.Shader
