import Mathlib
import WordLayout.Proofs.Shader.Reserved
import WordLayout.Proofs.Shader.Listing.Bodies
import WordLayout.Proofs.Shader.Listing.Reading

namespace WordLayout.Shader

open Validation

theorem Language.Usable.ne {l : Language} {x : String} (h : l.Usable x) {y : String}
    (hy : l.isReserved y = true) : x ≠ y := by
  rintro rfl
  rw [h.2] at hy
  cases hy

theorem reserved_return (l : Language) : l.isReserved "return" = true := by
  cases l <;> decide +kernel

theorem reserved_void {l : Language} (hl : l ≠ .wgsl) : l.isReserved "void" = true := by
  cases l with
  | glsl | hlsl => decide +kernel
  | wgsl => exact absurd rfl hl

/-- A field has the name of a constant, in a language where constants are macros. -/
def FieldReplaced (m : Module) (l : Language) : Prop :=
  l ≠ .wgsl ∧ ∃ d ∈ m.defs, ∃ e ∈ m.defs, ∃ x ∈ constantNames e, HasField d x

namespace Listing

section names

variable {m : Module} {l : Language} {d : TypeDef} {x : String}

theorem isIdentifier_given (h : checkGivenNames l d = .ok ()) : Text.isIdentifier d.name = true :=
  (usable_of_checked h).1.1

theorem isWordChar_of_identifier (h : Text.isIdentifier x = true) :
    ∀ c ∈ x.toList, isWordChar c = true :=
  (IsWord.of_identifier h).2

theorem isIdentifier_tagName (h : checkGivenNames l d = .ok ()) {variants : List Variant}
    (hb : d.body = .union variants) {v : Variant} (hv : v ∈ variants) :
    Text.isIdentifier (tagName d v) = true := by
  have hvariant := ((usable_of_checked h).2 variants hb v hv).1
  exact isIdentifier_append (isIdentifier_append (isIdentifier_given h) (List.all_eq_true.mp rfl))
    (isWordChar_of_identifier hvariant)

theorem isIdentifier_of_emitted (h : checkGivenNames l d = .ok ()) (hx : EmittedName m l d x) :
    Text.isIdentifier x = true := by
  have hname := isIdentifier_given h
  cases hx with
  | handle | maker _ | size | index | read _ | write _ _ | tag _ =>
    exact isIdentifier_append hname (List.all_eq_true.mp rfl)
  | struct hb => exact hname
  | constant hb hv => exact isIdentifier_tagName h hb hv
  | variantRead hb hv _ | variantWrite hb hv _ _ =>
    exact isIdentifier_append (isIdentifier_tagName h hb hv) (List.all_eq_true.mp rfl)

theorem isIdentifier_field (h : checkGivenNames l d = .ok ()) (hx : HasField d x) :
    Text.isIdentifier x = true := by
  obtain ⟨fields, hb, f, hf, rfl⟩ := hx
  obtain ⟨⟨⟩, -, hmembers⟩ := bind_eq_ok_iff.mp h
  rw [hb] at hmembers
  exact (usable_of_checkName (forM_eq_ok_iff.mp hmembers f hf)).1

theorem mem_constantNames_iff :
    x ∈ constantNames d ↔
      (∃ variants, d.body = .union variants ∧ ∃ v ∈ variants, x = tagName d v) ∨
        x = d.name ++ "_size" := by
  cases hb : d.body <;> simp [constantNames, hb, eq_comm]

theorem emitted_of_constant (hx : x ∈ constantNames d) : EmittedName m l d x := by
  rcases mem_constantNames_iff.mp hx with ⟨variants, hb, v, hv, rfl⟩ | rfl
  · exact .constant hb hv
  · exact .size

theorem underscore_of_constant (hx : x ∈ constantNames d) : '_' ∈ x.toList := by
  rcases mem_constantNames_iff.mp hx with ⟨variants, -, v, -, rfl⟩ | rfl
  · simp [tagName]
  · simp

end names

structure Emittable (m : Module) (l : Language) (o : Options) : Prop where
  valid : m.validate = []
  names : NamesAccepted m l (bufferName m o)
  unambiguous : (program m o).Unambiguous

theorem emittable_of_emit {m : Module} {l : Language} {o : Options} {out : Output}
    (he : emit m l o = .ok out) : Emittable m l o := by
  obtain ⟨hv, ⟨used, hused⟩, hprog, -⟩ := emit_eq_ok he
  exact ⟨hv, accepted_of_claimNames hused, hprog ▸ unambiguous_of_emit he⟩

section macros

variable {m : Module} {l : Language} {o : Options} {mac : Macros} {x : String}

def FromConstants (m : Module) (l : Language) (o : Options) (mac : Macros) : Prop :=
  ∀ q ∈ mac, l ≠ .wgsl ∧
    ∃ value : UInt32, .constant q.1 value ∈ (program m o).items ∧ q.2 = toString value.toNat

theorem fromConstants_items {items : List Item} (h : items ⊆ (program m o).items) :
    FromConstants m l o (items.flatMap (itemMacros l)) := by
  intro q hq
  obtain ⟨item, hi, hq⟩ := List.mem_flatMap.mp hq
  cases item with
  | constant name value =>
    cases l with
    | glsl | hlsl =>
      obtain rfl := List.mem_singleton.mp hq
      exact ⟨nofun, value, h hi, rfl⟩
    | wgsl => cases hq
  | _ => cases hq

theorem FromConstants.append {mac' : Macros} (h : FromConstants m l o mac)
    (h' : FromConstants m l o mac') : FromConstants m l o (mac ++ mac') :=
  List.forall_mem_append.mpr ⟨h, h'⟩

theorem exists_constantNames {value : UInt32} (h : .constant x value ∈ (program m o).items) :
    ∃ e ∈ m.defs, x ∈ constantNames e := by
  rw [← List.mem_flatMap, ← constants_program (o := o)]
  exact List.mem_filterMap.mpr ⟨_, h, rfl⟩

theorem FromConstants.exists (hmac : FromConstants m l o mac) (h : mac.lookup x ≠ none) :
    l ≠ .wgsl ∧ ∃ value : UInt32, .constant x value ∈ (program m o).items ∧
      mac.lookup x = some (toString value.toNat) := by
  obtain ⟨w, hw⟩ := Option.ne_none_iff_exists'.mp h
  obtain ⟨hl, value, hvalue, rfl⟩ := hmac _ (mem_of_lookup hw)
  exact ⟨hl, value, hvalue, hw⟩

variable (hm : Emittable m l o) (hmac : FromConstants m l o mac)
include hm hmac

theorem underscored_constants : Underscored mac := by
  intro x hx
  obtain ⟨-, value, hvalue, -⟩ := hmac.exists hx
  obtain ⟨e, he, hmem⟩ := exists_constantNames hvalue
  exact ⟨isIdentifier_of_emitted (m := m) (hm.names.checked e he) (emitted_of_constant hmem),
    underscore_of_constant hmem⟩

theorem kept_declared {item : Item} (hi : item ∈ (program m o).items)
    (hconst : item.constant? = none) (hx : x ∈ l.definitionNames item) : Kept mac x := by
  obtain ⟨d, hd, hemitted⟩ := exists_of_mem_names (mem_names_of_item hi hx)
  refine ⟨isIdentifier_of_emitted (hm.names.checked d hd) hemitted, ?_⟩
  by_contra hne
  obtain ⟨-, value, hvalue, -⟩ := hmac.exists hne
  have hnodup := (List.nodup_cons.mp (List.nodup_append.mp (nodup_names hm.names)).1).2
  obtain rfl := eq_of_mem_definitionNames hnodup hi hvalue hx (List.mem_singleton_self x)
  cases hconst

theorem kept_buffer : Kept mac (bufferName m o) := by
  refine ⟨(usable_of_checkName hm.names.buffer_checked).1, ?_⟩
  by_contra hne
  obtain ⟨-, value, hvalue, -⟩ := hmac.exists hne
  have hnot := (List.nodup_cons.mp (List.nodup_append.mp (nodup_names hm.names)).1).1
  exact hnot (mem_names_of_item hvalue (List.mem_singleton_self _))

theorem kept_handle (hx : IsDef m x) :
    Kept mac (x ++ "Ref") ∧ Kept mac (l.handleMaker x) := by
  obtain ⟨d, hd, rfl⟩ := hx
  have hi := handle_mem_items (o := o) hd
  have hmaker : l.handleMaker d.name ∈ l.definitionNames (.handle d.name) := by
    cases l <;>
      simp [Language.definitionNames, Language.handleNames_eq, Language.handleMaker,
        Language.extraNames]
  exact ⟨kept_declared hm hmac hi rfl
    (by simp [Language.definitionNames, Language.handleNames_eq]),
    kept_declared hm hmac hi rfl hmaker⟩

theorem kept_struct (hx : IsStruct m x) : Kept mac x := by
  obtain ⟨d, hd, rfl, fields, hb⟩ := hx
  exact kept_declared hm hmac (mem_items_of_declaration hd (struct_mem_declarations hb)) rfl
    (List.mem_singleton_self _)

theorem readableType_of_fits {type : TypeName} (h : type.Fits m) : ReadableType mac type := by
  cases type with
  | scalar k => trivial
  | vector k lanes => exact h
  | struct name => exact kept_struct hm hmac h
  | handle name => exact (kept_handle hm hmac h).1

theorem kept_function {d : TypeDef} (hd : d ∈ m.defs) {f : Function}
    (hf : f ∈ accessorFunctions m o.maskUnsigned d) : Kept mac f.name :=
  kept_declared hm hmac (function_mem_items hd hf) rfl (List.mem_singleton_self _)

theorem kept_read (hx : IsStruct m x) : Kept mac (x ++ "_read") := by
  obtain ⟨d, hd, rfl, fields, hb⟩ := hx
  exact kept_function hm hmac hd (readFunction_mem hb _)

theorem kept_write (hwr : m.writable = true) (hx : IsStruct m x) : Kept mac (x ++ "_write") := by
  obtain ⟨d, hd, rfl, fields, hb⟩ := hx
  exact kept_function hm hmac hd (writeFunction_mem hwr hb _)

theorem operand_constant {value : UInt32} (hx : .constant x value ∈ (program m o).items)
    (hdefined : l ≠ .wgsl → mac.lookup x ≠ none) :
    Operand l mac x (constantTerm l (program m o) x) := by
  obtain ⟨e, he, hmem⟩ := exists_constantNames hx
  have hid : Text.isIdentifier x = true :=
    isIdentifier_of_emitted (m := m) (hm.names.checked e he) (emitted_of_constant hmem)
  by_cases hl : l = .wgsl
  · have hnone : mac.lookup x = none := by
      by_contra hne
      exact (hmac.exists hne).1 hl
    subst hl
    exact operand_name ⟨hid, hnone⟩
  · obtain ⟨-, value', hvalue, hlookup⟩ := hmac.exists (hdefined hl)
    have hterm : constantTerm l (program m o) x = .literal value' := by
      rw [constantTerm.eq_def, hm.unambiguous.constant?_eq hvalue]
      cases l with
      | glsl | hlsl => rfl
      | wgsl => exact absurd rfl hl
    rw [hterm]
    apply operand_replaced (.of_identifier hid)
    rw [hlookup, Option.getD_some, ← uint_eq_decimal hl, atom?, uint_not_identifier, literal?_uint]
    rfl

omit hmac in
theorem usable_struct (hx : IsStruct m x) : l.Usable x := by
  obtain ⟨d, hd, rfl, -⟩ := hx
  exact (usable_of_checked (hm.names.checked d hd)).1

section functions

variable {d : TypeDef} (hfields : ∀ x, HasField d x → Kept mac x)
include hfields

theorem readable_source {source : Source} (h : source.Fits m d) : source.Readable l mac := by
  cases source with
  | scalar x => exact Expr.Over.imp hfields h
  | vector type lanes => exact ⟨h.1, h.2.1, fun x hx => (h.2.2 x hx).imp hfields⟩
  | nested name distance =>
    exact ⟨kept_read hm hmac h, (kept_handle hm hmac (IsStruct.isDef h)).2⟩
  | handle name x => exact ⟨(kept_handle hm hmac h.1).2, h.2.imp hfields⟩

variable {constant : String → Term} (hown : ∀ x ∈ constantNames d, Operand l mac x (constant x))
include hown

theorem readable_stmt (hd : d ∈ m.defs) {s : Stmt} (h : s.Fits m d) :
    s.Readable l mac (bufferName m o) constant := by
  have hbuffer := kept_buffer hm hmac
  have hne : bufferName m o ≠ "return" :=
    (usable_of_checkName hm.names.buffer_checked).ne (reserved_return l)
  cases s with
  | base | returnStruct => trivial
  | load w | returnTag => exact hbuffer
  | declare name => exact ⟨kept_struct hm hmac h, (usable_struct hm h).ne (reserved_return l)⟩
  | assign member source => exact ⟨hfields _ h.1, readable_source hm hmac hfields h.2⟩
  | store w parts =>
    exact ⟨hbuffer, hne, h.2.1, fun x hx => ⟨(h.2.2 x hx).1, (h.2.2 x hx).2.imp hfields⟩⟩
  | write name distance a =>
    obtain ⟨hwr, hname, ha⟩ := h
    exact ⟨kept_write hm hmac hwr hname, (kept_handle hm hmac hname.isDef).2,
      fun x hx => hfields x (ha x hx)⟩
  | returnRead name distance =>
    exact ⟨kept_read hm hmac h, (kept_handle hm hmac (IsStruct.isDef h)).2⟩
  | storeTag c =>
    obtain ⟨-, variants, hb, v, hv, rfl⟩ := h
    exact ⟨hbuffer, hne, hown _ (mem_constantNames_iff.mpr (.inl ⟨variants, hb, v, hv, rfl⟩))⟩
  | returnElement name =>
    obtain rfl := h
    exact ⟨(kept_handle hm hmac ⟨d, hd, rfl⟩).2, hown _ (mem_constantNames_iff.mpr (.inr rfl))⟩

theorem readable_function (hd : d ∈ m.defs) {f : Function}
    (hi : .function f ∈ (program m o).items) (h : f.Fits m d) :
    f.Readable l mac (bufferName m o) constant := by
  have hunder := underscored_constants hm hmac
  have hhandle := (kept_handle hm hmac ⟨d, hd, rfl⟩).1
  refine ⟨kept_declared hm hmac hi rfl (List.mem_singleton_self _), ?_, ?_,
    fun s hs => readable_stmt hm hmac hfields hown hd (h.body s hs)⟩
  · refine List.forall_mem_cons.mpr ⟨⟨kept_handleParam hunder l, h.owner ▸ hhandle⟩, ?_⟩
    cases hextra : f.extra with
    | none => exact nofun
    | index =>
      have hindex : Kept mac "index" := hunder.kept rfl (by decide)
      exact List.forall_mem_singleton.mpr ⟨hindex, kept_uintType hunder l⟩
    | struct name =>
      exact List.forall_mem_singleton.mpr ⟨kept_s hunder, kept_struct hm hmac (h.extra name hextra)⟩
  · cases hresult : f.result with
    | none => exact .inl rfl
    | some type =>
      right
      have htype : l.resultType f = l.typeName type := by rw [Language.resultType, hresult]; rfl
      rw [htype]
      rcases h.result type hresult with rfl | rfl | ⟨name, rfl, hname⟩
      · exact ⟨hhandle, fun _ => not_handle_name (by decide) d.name⟩
      · exact ⟨kept_uintType hunder l, fun _ => by cases l <;> decide⟩
      · exact ⟨kept_struct hm hmac hname, fun hl => (usable_struct hm hname).ne (reserved_void hl)⟩

end functions

end macros

section leading

variable {m : Module} {d : TypeDef}

def leadingItems (m : Module) (d : TypeDef) : List Item :=
  (match d.body with
    | .struct fields => [.struct d.name (fields.map fun f => (f.name, memberType m f.ty))]
    | .union variants =>
      variants.zipIdx.map fun (v, tag) => .constant (tagName d v) (UInt32.ofNat tag)
    | .missing => []) ++
  [.constant (d.name ++ "_size") d.size, .blank]

theorem declarations_eq :
    declarations m d = leadingItems m d ++ [.function (indexFunction d)] := by
  cases hb : d.body <;> simp [declarations, leadingItems, hb]

theorem leading_cases {item : Item} (hi : item ∈ leadingItems m d) :
    item = .blank ∨ (∃ x value, x ∈ constantNames d ∧ item = .constant x value) ∨
      ∃ fields, d.body = .struct fields ∧
        item = .struct d.name (fields.map fun f => (f.name, memberType m f.ty)) := by
  rcases List.mem_append.mp hi with hi | hi
  · cases hb : d.body with
    | struct fields =>
      rw [hb] at hi
      exact .inr (.inr ⟨fields, rfl, List.mem_singleton.mp hi⟩)
    | union variants =>
      rw [hb] at hi
      obtain ⟨⟨v, tag⟩, hv, rfl⟩ := List.mem_map.mp hi
      exact .inr (.inl ⟨_, _, mem_constantNames_iff.mpr
        (.inl ⟨variants, hb, v, List.fst_mem_of_mem_zipIdx hv, rfl⟩), rfl⟩)
    | missing =>
      rw [hb] at hi
      cases hi
  · simp only [List.mem_cons, List.not_mem_nil, or_false] at hi
    rcases hi with rfl | rfl
    · exact .inr (.inl ⟨_, _, mem_constantNames_iff.mpr (.inr rfl), rfl⟩)
    · exact .inl rfl

theorem constant_mem_leading {x : String} (hx : x ∈ constantNames d) :
    ∃ value, .constant x value ∈ leadingItems m d := by
  rcases mem_constantNames_iff.mp hx with ⟨variants, hb, v, hv, rfl⟩ | rfl
  · obtain ⟨value, hvalue⟩ := tag_mem_declarations (m := m) hb hv
    rw [declarations_eq] at hvalue
    exact ⟨value, by simpa using hvalue⟩
  · exact ⟨d.size, by simp [leadingItems]⟩

end leading

section legible

variable {m : Module} {l : Language} {o : Options} {mac : Macros} {items : List Item}

theorem lookup_of_constant (hl : l ≠ .wgsl) {x : String} {value : UInt32}
    (hx : .constant x value ∈ items) :
    (mac ++ items.flatMap (itemMacros l)).lookup x ≠ none := by
  have hmem : (x, toString value.toNat) ∈ mac ++ items.flatMap (itemMacros l) := by
    refine List.mem_append_right _ (List.mem_flatMap.mpr ⟨_, hx, ?_⟩)
    cases l with
    | glsl | hlsl => exact List.mem_singleton_self _
    | wgsl => exact absurd rfl hl
  exact fun h => lookup_eq_none_iff_notMem.mp h (List.mem_map_of_mem hmem)

variable (hm : Emittable m l o)
include hm

theorem legible_of_readable (hsub : items ⊆ (program m o).items)
    (h : ∀ item ∈ items, ∀ mac, FromConstants m l o mac → item.Readable l (program m o) mac)
    (hmac : FromConstants m l o mac) : Legible l (program m o) mac items := by
  induction items generalizing mac with
  | nil => exact .nil
  | cons item items ih =>
    rw [List.forall_mem_cons] at h
    obtain ⟨hitem, hrest⟩ := List.cons_subset.mp hsub
    have hnext : FromConstants m l o (itemMacros l item) := by
      have hone := fromConstants_items (l := l) (List.cons_subset.mpr ⟨hitem, List.nil_subset _⟩)
      rwa [List.flatMap_singleton] at hone
    exact .cons (underscored_constants hm hmac) (h.1 mac hmac) (ih hrest h.2 (hmac.append hnext))

theorem legible_opening : Legible l (program m o) [] (opening m o) := by
  have hnil : FromConstants m l o [] := nofun
  refine legible_of_forall (underscored_constants hm hnil) fun item hi => ?_
  rcases opening_cases hi with ⟨text, rfl⟩ | rfl | ⟨b, rfl⟩ | ⟨d, hd, rfl⟩
  · exact ⟨rfl, trivial⟩
  · exact ⟨rfl, trivial⟩
  · have hbuffer : Kept [] (program m o).buffer := kept_buffer hm hnil
    exact ⟨rfl, hbuffer, fun _ => ⟨isIdentifier_append hbuffer.1 (List.all_eq_true.mp rfl), rfl⟩,
      fun _ => ⟨rfl, rfl⟩⟩
  · obtain ⟨href, hmaker⟩ := kept_handle hm hnil ⟨d, hd, rfl⟩
    refine ⟨rfl, href, ?_⟩
    rintro rfl
    exact hmaker

variable (hclean : ¬ FieldReplaced m l)
include hclean

theorem kept_field (hmac : FromConstants m l o mac) {d : TypeDef} (hd : d ∈ m.defs) {x : String}
    (hx : HasField d x) : Kept mac x := by
  refine ⟨isIdentifier_field (hm.names.checked d hd) hx, ?_⟩
  by_contra hne
  obtain ⟨hl, value, hvalue, -⟩ := hmac.exists hne
  obtain ⟨e, he, hmem⟩ := exists_constantNames hvalue
  exact hclean ⟨hl, d, hd, e, he, x, hmem, hx⟩

theorem readable_struct (hmac : FromConstants m l o mac) {d : TypeDef} (hd : d ∈ m.defs)
    {fields : List Field} (hb : d.body = .struct fields) :
    (Item.struct d.name (fields.map fun f => (f.name, memberType m f.ty))).Readable l
      (program m o) mac := by
  refine ⟨kept_struct hm hmac ⟨d, hd, rfl, fields, hb⟩, List.forall_mem_map.mpr fun f hf => ?_⟩
  exact ⟨kept_field hm hclean hmac hd ⟨fields, hb, f, hf, rfl⟩,
    readableType_of_fits hm hmac (fits_memberType hm.valid hd hb hf)⟩

theorem legible_declarations {d : TypeDef} (hd : d ∈ m.defs) (hmac : FromConstants m l o mac) :
    Legible l (program m o) mac (declarations m d) := by
  have hsub : declarations m d ⊆ (program m o).items :=
    fun item hi => mem_items_of_declaration hd hi
  have hindex : .function (indexFunction d) ∈ declarations m d := by simp [declarations]
  rw [declarations_eq] at hsub ⊢
  have hleading : leadingItems m d ⊆ (program m o).items :=
    fun item hi => hsub (List.mem_append_left _ hi)
  -- the macros of a definition stand before its only function here
  refine (legible_of_readable hm hleading ?_ hmac).append ?_
  · intro item hi mac hmac
    rcases leading_cases hi with rfl | ⟨x, value, hx, rfl⟩ | ⟨fields, hb, rfl⟩
    · trivial
    · have hid := isIdentifier_of_emitted (m := m) (hm.names.checked d hd) (emitted_of_constant hx)
      refine ⟨hid, fun hl => ?_⟩
      by_contra hne
      exact (hmac.exists hne).1 hl
    · exact readable_struct hm hclean hmac hd hb
  · have hafter := hmac.append (fromConstants_items (l := l) hleading)
    have hown : ∀ x ∈ constantNames d,
        Operand l (mac ++ (leadingItems m d).flatMap (itemMacros l)) x
          (constantTerm l (program m o) x) := by
      intro x hx
      obtain ⟨value, hvalue⟩ := constant_mem_leading (m := m) hx
      exact operand_constant hm hafter (hleading hvalue) fun hl => lookup_of_constant hl hvalue
    have hreadable := readable_function hm hafter
      (fun x hx => kept_field hm hclean hafter hd hx) hown hd
      (mem_items_of_declaration hd hindex) fits_indexFunction
    exact .cons (underscored_constants hm hafter) hreadable .nil

theorem legible_defs {defs : List TypeDef} (hsub : defs ⊆ m.defs)
    (hmac : FromConstants m l o mac) :
    Legible l (program m o) mac (defs.flatMap (declarations m)) := by
  induction defs generalizing mac with
  | nil => exact .nil
  | cons d defs ih =>
    obtain ⟨hd, hrest⟩ := List.cons_subset.mp hsub
    have hmacros := fromConstants_items (l := l) (o := o)
      fun item hi => mem_items_of_declaration hd hi
    rw [List.flatMap_cons]
    exact (legible_declarations hm hclean hd hmac).append (ih hrest (hmac.append hmacros))

theorem legible_program : Legible l (program m o) [] (program m o).items := by
  have hbefore : opening m o ++ m.defs.flatMap (declarations m) ⊆ (program m o).items :=
    fun item hi => List.mem_append_left _ hi
  have hnone : (opening m o).flatMap (itemMacros l) = [] := by
    rw [List.flatMap_eq_nil_iff]
    intro item hi
    rcases opening_cases hi with ⟨text, rfl⟩ | rfl | ⟨b, rfl⟩ | ⟨d, hd, rfl⟩
    · rfl
    · rfl
    · rfl
    · rfl
  have hmac := fromConstants_items (l := l) hbefore
  have hown : ∀ d ∈ m.defs, ∀ x ∈ constantNames d,
      Operand l ((opening m o ++ m.defs.flatMap (declarations m)).flatMap (itemMacros l)) x
        (constantTerm l (program m o) x) := by
    intro d hd x hx
    obtain ⟨value, hvalue⟩ := constant_mem_leading (m := m) hx
    have hmem : .constant x value ∈ opening m o ++ m.defs.flatMap (declarations m) := by
      refine List.mem_append_right _ (List.mem_flatMap.mpr ⟨d, hd, ?_⟩)
      rw [declarations_eq]
      exact List.mem_append_left _ hvalue
    refine operand_constant hm hmac (hbefore hmem) fun hl => ?_
    have hlookup := @lookup_of_constant l [] _ hl _ _ hmem
    rwa [List.nil_append] at hlookup
  rw [items_program]
  refine ((legible_opening hm).append ?_).append ?_
  · rw [hnone]
    exact legible_defs hm hclean (List.Subset.refl _) nofun
  · rw [List.nil_append]
    refine legible_of_forall (underscored_constants hm hmac) fun item hi => ?_
    have hitem : item ∈ (program m o).items := List.mem_append_right _ hi
    obtain ⟨e, -, hacc⟩ := List.mem_flatMap.mp hi
    rcases function_or_omitted hacc with ⟨f, rfl⟩ | ⟨name, reason, rfl⟩
    · obtain ⟨d, hd, hfits⟩ := exists_fits hm.valid hitem
      exact ⟨rfl, readable_function hm hmac (fun x hx => kept_field hm hclean hmac hd hx)
        (hown d hd) hd hitem hfits⟩
    · exact ⟨rfl, trivial⟩

end legible

end Listing

namespace Program

def file (p : Program) (l : Language) : Listing.File :=
  Listing.fileAfter l p { buffer := p.buffer } p.items

def code (p : Program) (l : Language) : String :=
  String.join ((p.items.filter (!·.isRemark)).map (l.itemText p.buffer))

end Program

namespace Listing

section texts

variable {m : Module} {l : Language} {o : Options}

theorem readFile_items {p : Program} {items : List Item} (h : Legible l p [] items)
    (hplain : ∀ item ∈ items, item.Plain) :
    readFile l p.buffer (String.join (items.map (l.itemText p.buffer))) =
      some (fileAfter l p { buffer := p.buffer } items) := by
  have hread := reads_items h hplain (rfl : ({ buffer := p.buffer } : File).buffer = p.buffer)
  rw [readFile, hread.read]

variable (hm : Emittable m l o)
include hm

theorem readFile_function {f : Function} (hi : .function f ∈ (program m o).items) :
    readFile l (program m o).buffer (l.itemText (program m o).buffer (.function f)) =
      some { buffer := (program m o).buffer, names := [f.name],
             routines := [f.routine l (program m o).buffer .name] } := by
  have hnil : FromConstants m l o [] := nofun
  obtain ⟨d, hd, hfits⟩ := exists_fits hm.valid hi
  have hchecked := hm.names.checked d hd
  have hfields : ∀ x, HasField d x → Kept [] x :=
    fun x hx => ⟨isIdentifier_field hchecked hx, rfl⟩
  have hown : ∀ x ∈ constantNames d, Operand l [] x (.name x) := by
    intro x hx
    have hemitted : EmittedName m l d x := emitted_of_constant hx
    exact operand_name ⟨isIdentifier_of_emitted hchecked hemitted, rfl⟩
  have hreadable : f.Readable l [] (program m o).buffer .name :=
    readable_function hm hnil hfields hown hd hi hfits
  have hread : Reads l ⟨[], { buffer := (program m o).buffer }, .outside⟩ _ _ :=
    reads_function (underscored_constants hm hnil) hreadable
  rw [readFile, hread.read]
  rfl

variable (hclean : ¬ FieldReplaced m l)
include hclean

theorem readFile_render (hplain : ∀ item ∈ (program m o).items, item.Plain) :
    readFile l (program m o).buffer ((program m o).render l) = some ((program m o).file l) := by
  rw [render_eq_join]
  exact readFile_items (legible_program hm hclean) hplain

theorem readFile_code :
    readFile l (program m o).buffer ((program m o).code l) = some ((program m o).file l) := by
  have hread := readFile_items (legible_program hm hclean).code fun item hi => by
    have hcode := (List.mem_filter.mp hi).2
    cases item with
    | comment | omitted => cases hcode
    | _ => trivial
  rwa [fileAfter_code] at hread

end texts

end Listing

end WordLayout.Shader
