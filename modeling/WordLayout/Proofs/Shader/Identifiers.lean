import Mathlib
import WordLayout.Proofs.Shader.Order

namespace WordLayout.Shader

open Validation

def Item.handle? : Item → Option String
  | .handle name => some name
  | _ => none

namespace Language

def definitionNames (l : Language) : Item → List String
  | .handle name => l.handleNames name
  | .struct name _ | .constant name _ => [name]
  | .function f => [f.name]
  | .comment _ | .blank | .buffer .. | .omitted .. => []

def exprLocals : Expr → List String
  | .raw word => [rawName word]
  | .member .. | .offset _ => ["s"]
  | .mask x _ | .shiftLeft x _ | .shiftRight x _ | .group x => exprLocals x
  | .floatFromBits x | .floatToBits x | .intFromBits x | .intToBits x => exprLocals x

def sourceLocals (l : Language) : Source → List String
  | .scalar x | .handle _ x => exprLocals x
  | .vector _ lanes => lanes.flatMap exprLocals
  | .nested .. => [l.handleParam]

def stmtLocals (l : Language) : Stmt → List String
  | .base => ["ix", l.handleParam]
  | .load w => [rawName w, "ix"]
  | .declare _ | .returnStruct => ["s"]
  | .assign _ source => "s" :: l.sourceLocals source
  | .store _ parts => "ix" :: parts.flatMap exprLocals
  | .write .. => [l.handleParam, "s"]
  | .returnRead .. | .returnTag | .storeTag _ => [l.handleParam]
  | .returnElement _ => [l.handleParam, "index"]

def itemLocals (l : Language) : Item → List String
  | .function f => (l.params f).map (·.name) ++ f.body.flatMap l.stmtLocals
  | .handle _ =>
    match l with
    | .hlsl => ["offset", "r"]
    | .glsl | .wgsl => []
  | _ => []

section locals

variable {l : Language} {x : String}

theorem isRawName_rawName (w : UInt32) : isRawName (rawName w) = true := by
  have hdigits : (toString w.toNat).toList = Nat.toDigits 10 w.toNat := by
    rw [Nat.toString_eq_ofList_toDigits, String.toList_ofList]
  have hne : Nat.toDigits 10 w.toNat ≠ [] := Nat.toDigits_ne_nil
  have hall : ∀ c ∈ Nat.toDigits 10 w.toNat, Text.isAsciiDigit c = true := by
    intro c hc
    have hdigit := Nat.isDigit_of_mem_toDigits (by decide) (by decide) hc
    simpa [Char.isDigit, Text.isAsciiDigit, Char.le_def] using hdigit
  have hraw : "raw".toList = ['r', 'a', 'w'] := rfl
  simp only [isRawName, rawName, String.toList_append, hdigits, hraw, List.cons_append,
    List.nil_append, Bool.and_eq_true, Bool.not_eq_true', List.isEmpty_eq_false_iff,
    List.all_eq_true]
  exact ⟨hne, hall⟩

def Blocked (l : Language) (x : String) : Prop :=
  x ∈ (NameTable.locals l).map (·.1) ∨ isRawName x = true

@[simp]
theorem blocked_handleParam : l.Blocked l.handleParam :=
  .inl (by simp [NameTable.locals])

@[simp]
theorem blocked_ix : l.Blocked "ix" := .inl (by simp [NameTable.locals])

@[simp]
theorem blocked_s : l.Blocked "s" := .inl (by simp [NameTable.locals])

@[simp]
theorem blocked_index : l.Blocked "index" := .inl (by simp [NameTable.locals])

@[simp]
theorem blocked_raw (w : UInt32) : l.Blocked (rawName w) := .inr (isRawName_rawName w)

theorem blocked_exprLocals (e : Expr) : ∀ x ∈ exprLocals e, l.Blocked x := by
  induction e with
  | raw w => simp [exprLocals]
  | member | offset => simp [exprLocals]
  | mask _ _ ih | shiftLeft _ _ ih | shiftRight _ _ ih | group _ ih => exact ih
  | floatFromBits _ ih | floatToBits _ ih | intFromBits _ ih | intToBits _ ih => exact ih

theorem blocked_exprsLocals (es : List Expr) : ∀ x ∈ es.flatMap exprLocals, l.Blocked x := by
  intro x hx
  obtain ⟨e, -, hx⟩ := List.mem_flatMap.mp hx
  exact blocked_exprLocals e x hx

theorem blocked_sourceLocals (source : Source) : ∀ x ∈ l.sourceLocals source, l.Blocked x := by
  cases source with
  | scalar e => exact blocked_exprLocals e
  | handle name e => exact blocked_exprLocals e
  | vector type lanes => exact blocked_exprsLocals lanes
  | nested name distance => simp [sourceLocals]

theorem blocked_stmtLocals (s : Stmt) : ∀ x ∈ l.stmtLocals s, l.Blocked x := by
  cases s with
  | assign member source =>
    exact List.forall_mem_cons.mpr ⟨blocked_s, blocked_sourceLocals source⟩
  | store w parts => exact List.forall_mem_cons.mpr ⟨blocked_ix, blocked_exprsLocals parts⟩
  | _ => simp [stmtLocals]

theorem blocked_params (f : Function) : ∀ x ∈ (l.params f).map (·.name), l.Blocked x := by
  cases hextra : f.extra <;> simp [params, hextra]

theorem blocked_itemLocals (item : Item) : ∀ x ∈ l.itemLocals item, l.Blocked x := by
  cases item with
  | function f =>
    intro x hx
    rcases List.mem_append.mp hx with hx | hx
    · exact blocked_params f x hx
    · obtain ⟨s, -, hx⟩ := List.mem_flatMap.mp hx
      exact blocked_stmtLocals s x hx
  | handle name =>
    cases l with
    | hlsl =>
      have hall : ∀ x ∈ ["offset", "r"], x ∈ (NameTable.locals .hlsl).map (·.1) := by decide
      exact fun x hx => .inl (hall x hx)
    | glsl | wgsl => simp [itemLocals]
  | _ => simp [itemLocals]

end locals

end Language

section raws

theorem rawName_injective : Function.Injective rawName := by
  intro a b h
  have hnat : a.toNat.repr = b.toNat.repr := (String.append_right_inj "raw").mp h
  exact UInt32.toNat_inj.mp (Nat.repr_injective hnat)

theorem rawName_ne {w : UInt32} {x : String} (hx : isRawName x = false) : rawName w ≠ x := by
  rintro rfl
  rw [Language.isRawName_rawName] at hx
  cases hx

theorem not_raw_handleParam (l : Language) : isRawName l.handleParam = false := by
  cases l <;> decide

theorem not_raw_ix : isRawName "ix" = false := by decide

theorem not_raw_s : isRawName "s" = false := by decide

end raws

section names

variable (m : Module) (l : Language)

inductive EmittedName (d : TypeDef) : String → Prop
  | handle : EmittedName d (d.name ++ "Ref")
  | maker (hl : l = .hlsl) : EmittedName d (d.name ++ "Ref_new")
  | size : EmittedName d (d.name ++ "_size")
  | index : EmittedName d (d.name ++ "_index")
  | struct {fields : List Field} (hb : d.body = .struct fields) : EmittedName d d.name
  | read {fields : List Field} (hb : d.body = .struct fields) : EmittedName d (d.name ++ "_read")
  | write {fields : List Field} (hb : d.body = .struct fields) (hwr : m.writable = true) :
    EmittedName d (d.name ++ "_write")
  | tag {variants : List Variant} (hb : d.body = .union variants) : EmittedName d (d.name ++ "_tag")
  | constant {variants : List Variant} (hb : d.body = .union variants) {v : Variant}
    (hv : v ∈ variants) : EmittedName d (tagName d v)
  | variantRead {variants : List Variant} (hb : d.body = .union variants) {v : Variant}
    (hv : v ∈ variants) {offset : UInt32} {t : Handle} (hp : v.payload = .struct offset t) :
    EmittedName d (tagName d v ++ "_read")
  | variantWrite {variants : List Variant} (hb : d.body = .union variants) {v : Variant}
    (hv : v ∈ variants) (hwr : m.writable = true)
    (hp : v.payload = .empty ∨ ∃ offset t, v.payload = .struct offset t) :
    EmittedName d (tagName d v ++ "_write")

variable {m l} {o : Options} {d : TypeDef} {x : String}

theorem emitted_of_handle (hx : x ∈ l.definitionNames (.handle d.name)) : EmittedName m l d x := by
  rw [Language.definitionNames, Language.handleNames_eq] at hx
  rcases List.mem_cons.mp hx with rfl | hx
  · exact .handle
  · cases l with
    | hlsl =>
      obtain rfl := List.mem_singleton.mp hx
      exact .maker rfl
    | glsl | wgsl => cases hx

theorem emitted_of_declaration {item : Item} (hi : item ∈ declarations m d)
    (hx : x ∈ l.definitionNames item) : EmittedName m l d x := by
  rcases List.mem_append.mp hi with hi | hi
  · cases hb : d.body with
    | struct fields =>
      rw [hb] at hi
      obtain rfl := List.mem_singleton.mp hi
      obtain rfl := List.mem_singleton.mp hx
      exact .struct hb
    | union variants =>
      rw [hb] at hi
      obtain ⟨⟨v, tag⟩, hv, rfl⟩ := List.mem_map.mp hi
      obtain rfl := List.mem_singleton.mp hx
      exact .constant hb (List.fst_mem_of_mem_zipIdx hv)
    | missing =>
      rw [hb] at hi
      cases hi
  · simp only [List.mem_cons, List.not_mem_nil, or_false] at hi
    rcases hi with rfl | rfl | rfl
    · obtain rfl := List.mem_singleton.mp hx
      exact .size
    · cases hx
    · obtain rfl := List.mem_singleton.mp hx
      exact .index

theorem emitted_of_variantRead {variants : List Variant} (hb : d.body = .union variants)
    {v : Variant} (hv : v ∈ variants) {item : Item} (hi : item ∈ variantRead m d v)
    (hx : x ∈ l.definitionNames item) : EmittedName m l d x := by
  cases hp : v.payload with
  | struct offset t =>
    simp only [variantRead, hp, List.mem_singleton] at hi
    obtain rfl := hi
    obtain rfl := List.mem_singleton.mp hx
    exact .variantRead hb hv hp
  | unsupported items reason =>
    simp only [variantRead, hp, List.mem_singleton] at hi
    obtain rfl := hi
    cases hx
  | empty | missing => simp [variantRead, hp] at hi

theorem emitted_of_variantWrite {variants : List Variant} (hb : d.body = .union variants)
    (hwr : m.writable = true) {v : Variant} (hv : v ∈ variants) {item : Item}
    (hi : item ∈ variantWrite m d v) (hx : x ∈ l.definitionNames item) :
    EmittedName m l d x := by
  cases hp : v.payload with
  | empty =>
    simp only [variantWrite, hp, List.mem_singleton] at hi
    obtain rfl := hi
    obtain rfl := List.mem_singleton.mp hx
    exact .variantWrite hb hv hwr (.inl hp)
  | struct offset t =>
    simp only [variantWrite, hp, List.mem_singleton] at hi
    obtain rfl := hi
    obtain rfl := List.mem_singleton.mp hx
    exact .variantWrite hb hv hwr (.inr ⟨offset, t, hp⟩)
  | unsupported items reason =>
    simp only [variantWrite, hp, List.mem_singleton] at hi
    obtain rfl := hi
    cases hx
  | missing => simp [variantWrite, hp] at hi

theorem emitted_of_accessor {maskUnsigned : Bool} {item : Item}
    (hi : item ∈ accessors m maskUnsigned d) (hx : x ∈ l.definitionNames item) :
    EmittedName m l d x := by
  cases hb : d.body with
  | struct fields =>
    simp only [accessors, hb, List.mem_cons, List.mem_ite_nil_right, List.not_mem_nil,
      or_false] at hi
    rcases hi with rfl | ⟨hwr, rfl⟩
    · obtain rfl := List.mem_singleton.mp hx
      exact .read hb
    · obtain rfl := List.mem_singleton.mp hx
      exact .write hb hwr
  | union variants =>
    simp only [accessors, hb, List.cons_append, List.mem_cons, List.mem_append, List.mem_flatMap,
      List.mem_ite_nil_right] at hi
    rcases hi with rfl | ⟨v, hv, hi⟩ | ⟨hwr, v, hv, hi⟩
    · obtain rfl := List.mem_singleton.mp hx
      exact .tag hb
    · exact emitted_of_variantRead hb hv hi hx
    · exact emitted_of_variantWrite hb hwr hv hi hx
  | missing => simp [accessors, hb] at hi

theorem exists_variantRead {v : Variant} {offset : UInt32} {t : Handle}
    (hp : v.payload = .struct offset t) :
    ∃ f, .function f ∈ variantRead m d v ∧ f.name = tagName d v ++ "_read" := by
  simp only [variantRead, hp, List.mem_singleton]
  exact ⟨_, rfl, rfl⟩

theorem exists_variantWrite {v : Variant}
    (hp : v.payload = .empty ∨ ∃ offset t, v.payload = .struct offset t) :
    ∃ f, .function f ∈ variantWrite m d v ∧ f.name = tagName d v ++ "_write" := by
  rcases hp with hp | ⟨offset, t, hp⟩
  · simp only [variantWrite, hp, List.mem_singleton]
    exact ⟨_, rfl, rfl⟩
  · simp only [variantWrite, hp, List.mem_singleton]
    exact ⟨_, rfl, rfl⟩

theorem mem_names_of_item {item : Item} (hi : item ∈ (program m o).items)
    (hx : x ∈ l.definitionNames item) : x ∈ (program m o).items.flatMap l.definitionNames :=
  List.mem_flatMap.mpr ⟨item, hi, hx⟩

theorem handle_mem_items (hd : d ∈ m.defs) : .handle d.name ∈ (program m o).items :=
  List.mem_append_left _ (List.mem_append_left _ (mem_opening_iff.mpr (.inr (.inr ⟨d, hd, rfl⟩))))

theorem function_mem_items {f : Function} (hd : d ∈ m.defs)
    (hf : f ∈ accessorFunctions m o.maskUnsigned d) : .function f ∈ (program m o).items :=
  List.mem_append_right _ (List.mem_flatMap.mpr ⟨d, hd, function_mem_accessors hf⟩)

theorem mem_names_of_function {f : Function} (hd : d ∈ m.defs)
    (hf : f ∈ accessorFunctions m o.maskUnsigned d) :
    f.name ∈ (program m o).items.flatMap l.definitionNames :=
  mem_names_of_item (function_mem_items hd hf) (List.mem_singleton_self _)

theorem exists_of_mem_names (hx : x ∈ (program m o).items.flatMap l.definitionNames) :
    ∃ d ∈ m.defs, EmittedName m l d x := by
  obtain ⟨item, hi, hx⟩ := List.mem_flatMap.mp hx
  rcases item_cases hi with ⟨text, rfl⟩ | rfl | ⟨b, rfl⟩ | ⟨d, hd, rfl | hi | hi⟩
  · cases hx
  · cases hx
  · cases hx
  · exact ⟨d, hd, emitted_of_handle hx⟩
  · exact ⟨d, hd, emitted_of_declaration hi hx⟩
  · exact ⟨d, hd, emitted_of_accessor hi hx⟩

theorem mem_names_of_emitted (hd : d ∈ m.defs) (he : EmittedName m l d x) :
    x ∈ (program m o).items.flatMap l.definitionNames := by
  have hhandle := handle_mem_items (o := o) hd
  cases he with
  | handle =>
    refine mem_names_of_item hhandle ?_
    simp [Language.definitionNames, Language.handleNames_eq]
  | maker hl =>
    refine mem_names_of_item hhandle ?_
    simp [hl, Language.definitionNames, Language.handleNames_eq, Language.extraNames]
  | size =>
    have hi : .constant (d.name ++ "_size") d.size ∈ declarations m d := by simp [declarations]
    exact mem_names_of_item (mem_items_of_declaration hd hi) (List.mem_singleton_self _)
  | index =>
    have hi : .function (indexFunction d) ∈ declarations m d := by simp [declarations]
    exact mem_names_of_item (mem_items_of_declaration hd hi) (List.mem_singleton_self _)
  | struct hb =>
    have hi := struct_mem_declarations (m := m) hb
    exact mem_names_of_item (mem_items_of_declaration hd hi) (List.mem_singleton_self _)
  | read hb => exact mem_names_of_function hd (readFunction_mem hb _)
  | write hb hwr => exact mem_names_of_function hd (writeFunction_mem hwr hb _)
  | tag hb => exact mem_names_of_function hd (tagFunction_mem hb _)
  | constant hb hv =>
    obtain ⟨tag, hi⟩ := tag_mem_declarations (m := m) hb hv
    exact mem_names_of_item (mem_items_of_declaration hd hi) (List.mem_singleton_self _)
  | variantRead hb hv hp =>
    obtain ⟨f, hf, hname⟩ := exists_variantRead (m := m) (d := d) hp
    rw [← hname]
    exact mem_names_of_function hd (mem_accessors_of_variantRead hb hv hf _)
  | variantWrite hb hv hwr hp =>
    obtain ⟨f, hf, hname⟩ := exists_variantWrite (m := m) (d := d) hp
    rw [← hname]
    exact mem_names_of_function hd (mem_accessors_of_variantWrite hwr hb hv hf _)

theorem mem_names_iff :
    x ∈ (program m o).items.flatMap l.definitionNames ↔ ∃ d ∈ m.defs, EmittedName m l d x :=
  ⟨exists_of_mem_names, fun ⟨_, hd, he⟩ => mem_names_of_emitted hd he⟩

theorem count_definitionNames (items : List Item) :
    (items.flatMap l.definitionNames).count x =
      (items.filterMap Item.declared?).count x +
        ((items.filterMap Item.handle?).flatMap l.extraNames).count x := by
  induction items with
  | nil => rfl
  | cons item items ih =>
    cases item <;>
      simp [Language.definitionNames, Language.handleNames_eq, Item.declared?, Item.handle?,
        List.filterMap_cons, List.count_cons, ih] <;>
      omega

theorem handle?_of_declaration {item : Item} (hi : item ∈ declarations m d) :
    item.handle? = none := by
  cases item with
  | handle name => cases hb : d.body <;> simp [declarations, hb] at hi
  | _ => rfl

theorem function_or_omitted {maskUnsigned : Bool} {item : Item}
    (hi : item ∈ accessors m maskUnsigned d) :
    (∃ f, item = .function f) ∨ ∃ name reason, item = .omitted name reason := by
  cases hb : d.body with
  | struct fields =>
    simp only [accessors, hb, List.mem_cons, List.mem_ite_nil_right, List.not_mem_nil,
      or_false] at hi
    rcases hi with rfl | ⟨-, rfl⟩
    · exact .inl ⟨_, rfl⟩
    · exact .inl ⟨_, rfl⟩
  | union variants =>
    simp only [accessors, hb, List.cons_append, List.mem_cons, List.mem_append, List.mem_flatMap,
      List.mem_ite_nil_right] at hi
    rcases hi with rfl | ⟨v, -, hi⟩ | ⟨-, v, -, hi⟩
    · exact .inl ⟨_, rfl⟩
    · cases hp : v.payload <;> simp [variantRead, hp] at hi <;> simp [hi]
    · cases hp : v.payload <;> simp [variantWrite, hp] at hi <;> simp [hi]
  | missing => simp [accessors, hb] at hi

theorem handles_program : (program m o).items.filterMap Item.handle? = m.defs.map (·.name) := by
  have hopening : (opening m o).filterMap Item.handle? = m.defs.map (·.name) := by
    have hheader : (headerItems o.header).filterMap Item.handle? = [] := by
      simp [headerItems, List.filterMap_append, Item.handle?, Function.comp_def]
    cases hb : o.binding <;>
      simp [opening, hb, hheader, List.filterMap_append, List.filterMap_cons, Item.handle?,
        Function.comp_def]
  have hdecl : (m.defs.flatMap (declarations m)).filterMap Item.handle? = [] := by
    rw [List.filterMap_eq_nil_iff]
    intro item hi
    obtain ⟨d, -, hi⟩ := List.mem_flatMap.mp hi
    exact handle?_of_declaration hi
  have hacc : (m.defs.flatMap (accessors m o.maskUnsigned)).filterMap Item.handle? = [] := by
    rw [List.filterMap_eq_nil_iff]
    intro item hi
    obtain ⟨d, -, hi⟩ := List.mem_flatMap.mp hi
    rcases function_or_omitted hi with ⟨f, rfl⟩ | ⟨name, reason, rfl⟩
    · rfl
    · rfl
  rw [items_program, List.filterMap_append, List.filterMap_append, hopening, hdecl, hacc,
    List.append_nil, List.append_nil]

theorem count_names_le (m : Module) (l : Language) (o : Options) (x : String) :
    ((program m o).items.flatMap l.definitionNames).count x ≤
      (m.defs.flatMap (declaredNames l)).count x := by
  rw [count_definitionNames, handles_program, List.flatMap_map]
  exact count_program_le m l o x

section accepted

variable (ha : NamesAccepted m l (bufferName m o))
include ha

theorem nodup_names :
    (bufferName m o :: (program m o).items.flatMap l.definitionNames ++
      (NameTable.locals l).map (·.1)).Nodup := by
  rw [List.nodup_iff_count_le_one]
  intro x
  have hone := List.nodup_iff_count_le_one.mp ha.distinct x
  have hle := count_names_le m l o x
  simp only [List.cons_append, List.count_append, List.count_cons] at hone ⊢
  omega

theorem names_not_raw :
    ∀ x ∈ bufferName m o :: (program m o).items.flatMap l.definitionNames, isRawName x = false := by
  rw [List.forall_mem_cons]
  refine ⟨ha.buffer_not_raw, fun x hx => ?_⟩
  have hpos := (List.count_pos_iff.mpr hx).trans_le (count_names_le m l o x)
  obtain ⟨d, hd, hx⟩ := List.mem_flatMap.mp (List.count_pos_iff.mp hpos)
  exact ha.not_raw d hd x hx

theorem notMem_names_of_blocked (hx : l.Blocked x) :
    x ∉ bufferName m o :: (program m o).items.flatMap l.definitionNames := by
  intro hmem
  rcases hx with hx | hx
  · exact (List.nodup_append.mp (nodup_names ha)).2.2 x hmem x hx rfl
  · rw [names_not_raw ha x hmem] at hx
    cases hx

end accepted

end names

theorem eq_of_mem_definitionNames {l : Language} {items : List Item}
    (hnodup : (items.flatMap l.definitionNames).Nodup) {a b : Item} (ha : a ∈ items)
    (hb : b ∈ items) {x : String} (hxa : x ∈ l.definitionNames a)
    (hxb : x ∈ l.definitionNames b) : a = b := by
  by_contra hne
  have hsymm : Std.Symm (Function.onFun List.Disjoint l.definitionNames) :=
    ⟨fun _ _ h => h.symm⟩
  exact (List.nodup_flatMap.mp hnodup).2.forall ha hb hne hxa hxb

theorem functions_sublist (l : Language) (items : List Item) :
    ((items.filterMap Item.function?).map (·.name)).Sublist (items.flatMap l.definitionNames) := by
  induction items with
  | nil => exact .slnil
  | cons item items ih =>
    cases item with
    | function f => exact ih.cons_cons f.name
    | _ => exact ih.trans (List.sublist_append_right _ _)

/-- In emitted text, the name of the buffer and the names that are declared for the definitions,
those of the functions among them, are all different, and none of them is a parameter or a local of
a function. -/
theorem generated_names_distinct {m : Module} {l : Language} {o : Options} {out : Output}
    (he : emit m l o = .ok out) :
    (bufferName m o :: out.program.items.flatMap l.definitionNames).Nodup ∧
    out.functions.Sublist (out.program.items.flatMap l.definitionNames) ∧
    ∀ item ∈ out.program.items, ∀ x ∈ l.itemLocals item,
      x ∉ bufferName m o :: out.program.items.flatMap l.definitionNames := by
  obtain ⟨-, ⟨used, hused⟩, hprog, -⟩ := emit_eq_ok he
  have ha := accepted_of_claimNames hused
  rw [Output.functions, hprog]
  refine ⟨(List.nodup_append.mp (nodup_names ha)).1, functions_sublist l _, ?_⟩
  intro item _ x hx
  exact notMem_names_of_blocked ha (l.blocked_itemLocals item x hx)

theorem generated_names_distinct_chain :
    ∃ out, emit chainModule .hlsl { bufferName := "words" } = .ok out ∧
      ("words" :: out.program.items.flatMap Language.hlsl.definitionNames).Nodup ∧
      out.functions.Sublist (out.program.items.flatMap Language.hlsl.definitionNames) ∧
      ∀ x ∈ ["offset", "r"] ++ ["ref", "ix", "raw0", "raw1", "s"],
        x ∉ "words" :: out.program.items.flatMap Language.hlsl.definitionNames := by
  have hv : chainModule.validate = [] := by cbv
  obtain ⟨out, hout⟩ := @emit_ok chainModule .hlsl { bufferName := "words" } hv
    (by decide +kernel) rfl
  obtain ⟨hnodup, hfunctions, hlocals⟩ := generated_names_distinct hout
  obtain ⟨-, -, hprog, -⟩ := emit_eq_ok hout
  have hlink : chainModule.def? 0 = some _ := rfl
  have hd := chainModule.mem_of_def? hlink
  have hhandle : .handle "Link" ∈ out.program.items := hprog ▸ handle_mem_items hd
  have hread := hprog ▸ function_mem_items hd (readFunction_mem rfl false)
  refine ⟨out, hout, hnodup, hfunctions, fun x hx => ?_⟩
  rcases List.mem_append.mp hx with hx | hx
  · exact hlocals _ hhandle x hx
  · apply hlocals _ hread x
    revert x hx
    decide +kernel

end WordLayout.Shader
