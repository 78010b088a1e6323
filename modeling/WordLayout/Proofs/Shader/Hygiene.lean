import Mathlib
import WordLayout.Proofs.Shader.Identifiers

namespace WordLayout.Shader

-- Texts are taken apart by their bytes: on a given text these are found faster than the characters.
def bytes (s : String) : List UInt8 := s.toByteArray.data.toList

theorem bytes_append (a b : String) : bytes (a ++ b) = bytes a ++ bytes b := by
  simp [bytes]

theorem suffix_of_append_eq {a b s t : String} (h : a ++ s = b ++ t) :
    bytes s <:+ bytes t ∨ bytes t <:+ bytes s := by
  have hbytes := congrArg bytes h
  rw [bytes_append, bytes_append] at hbytes
  have hs : bytes s <:+ bytes b ++ bytes t := hbytes ▸ List.suffix_append _ _
  exact List.suffix_or_suffix_of_suffix hs (List.suffix_append _ _)

section buffer

variable {m : Module} {l : Language} {d : TypeDef} {x : String}

theorem emitted_block_iff {buffer : String} :
    EmittedName m l d (buffer ++ "Buf") ↔
      (∃ fields, d.body = .struct fields ∧ d.name = buffer ++ "Buf") ∨
        ∃ variants, d.body = .union variants ∧ ∃ v ∈ variants, tagName d v = buffer ++ "Buf" := by
  constructor
  · intro he
    generalize hx : buffer ++ "Buf" = x at he
    cases he with
    | struct hb => exact .inl ⟨_, hb, rfl⟩
    | constant hb hv => exact .inr ⟨_, hb, _, hv, rfl⟩
    -- The other names end in a way of their own, which does not end in the same letters.
    | _ => exact absurd (suffix_of_append_eq hx) (by decide)
  · rintro (⟨fields, hb, hname⟩ | ⟨variants, hb, v, hv, hname⟩)
    · rw [← hname]
      exact .struct hb
    · rw [← hname]
      exact .constant hb hv

theorem buffer_declares_cases {l : Language} {buffer x : String} {b : Binding} {writable : Bool}
    (hx : x ∈ l.itemDeclares buffer (.buffer b writable)) :
    x = buffer ∨ l = .glsl ∧ x = buffer ++ "Buf" := by
  cases l with
  | glsl =>
    have hx : x = buffer ++ "Buf" ∨ x = buffer := by simpa [Language.itemDeclares] using hx
    exact hx.symm.imp_right fun h => ⟨rfl, h⟩
  | hlsl | wgsl => exact .inl (List.mem_singleton.mp hx)

end buffer

/-- The names of the buffer's declaration differ from all names that are declared for the
definitions, except for the block that one language puts around the buffer: its name can be that of
a struct or of a tag. -/
theorem buffer_names_clash_iff {m : Module} {l : Language} {o : Options} {out : Output}
    (he : emit m l o = .ok out) {b : Binding} (hb : o.binding = some b) :
    .buffer b m.writable ∈ out.program.items ∧
    ∀ x ∈ l.itemDeclares (bufferName m o) (.buffer b m.writable),
      (x ∈ out.program.items.flatMap l.definitionNames ↔
        l = .glsl ∧ x = bufferName m o ++ "Buf" ∧ ∃ d ∈ m.defs,
          (∃ fields, d.body = .struct fields ∧ d.name = x) ∨
            ∃ variants, d.body = .union variants ∧ ∃ v ∈ variants, tagName d v = x) := by
  obtain ⟨-, ⟨used, hused⟩, hprog, -⟩ := emit_eq_ok he
  have hnodup := (List.nodup_append.mp (nodup_names (accepted_of_claimNames hused))).1
  have hbuffer := (List.nodup_cons.mp hnodup).1
  have hitem : .buffer b m.writable ∈ opening m o :=
    mem_opening_iff.mpr (.inr (.inl ⟨b, hb, .inl rfl⟩))
  rw [hprog]
  refine ⟨List.mem_append_left _ (List.mem_append_left _ hitem), fun x hx => ?_⟩
  rcases buffer_declares_cases hx with rfl | ⟨rfl, rfl⟩
  · have hne : bufferName m o ≠ bufferName m o ++ "Buf" := by
      intro heq
      have hlen := congrArg String.length heq
      simp at hlen
    simp [hbuffer, hne]
  · rw [mem_names_iff]
    simp only [emitted_block_iff, true_and]

def wordType (type field : String) : TypeDef :=
  { name := type, size := 4, body := .struct [⟨field, 0, .scalar .u32, 4⟩] }

def wordModule (type field : String) : Module :=
  { name := "mem", writable := false, defs := [wordType type field] }

theorem wordType_mem (type field : String) : wordType type field ∈ (wordModule type field).defs :=
  List.mem_singleton_self _

theorem emit_block :
    ∃ out, emit (wordModule "memBuf" "x") .glsl { binding := some ⟨0, 1⟩ } = .ok out :=
  emit_ok (by cbv) (by decide) rfl

theorem buffer_names_clash_word :
    ∃ out, emit (wordModule "memBuf" "x") .glsl { binding := some ⟨0, 1⟩ } = .ok out ∧
      "mem" ∉ out.program.items.flatMap Language.glsl.definitionNames ∧
      "memBuf" ∈ out.program.items.flatMap Language.glsl.definitionNames := by
  obtain ⟨out, hout⟩ := emit_block
  obtain ⟨-, hiff⟩ := buffer_names_clash_iff hout rfl
  have hmem := hiff "mem" (by decide)
  have hblock := hiff "memBuf" (by decide)
  refine ⟨out, hout, fun hx => ?_, ?_⟩
  · exact absurd (hmem.mp hx).2.1 (by decide)
  · exact hblock.mpr ⟨rfl, rfl, _, wordType_mem _ _, .inl ⟨_, rfl, rfl⟩⟩

theorem block_name_taken :
    ¬ ∀ (m : Module) (l : Language) (o : Options) (out : Output) (b : Binding),
      emit m l o = .ok out → o.binding = some b →
      ∀ x ∈ l.itemDeclares (bufferName m o) (.buffer b m.writable),
        x ∉ out.program.items.flatMap l.definitionNames := by
  intro h
  obtain ⟨out, hout⟩ := emit_block
  refine h _ _ _ out _ hout rfl "memBuf" (by decide) ?_
  rw [(emit_eq_ok hout).2.2.1]
  exact mem_names_of_emitted (wordType_mem _ _) (.struct rfl)

def Item.constant? : Item → Option String
  | .constant name _ => some name
  | _ => none

def exprMembers : Expr → List String
  | .raw _ => []
  | .member name _ | .offset name => [name]
  | .mask x _ | .shiftLeft x _ | .shiftRight x _ | .group x => exprMembers x
  | .floatFromBits x | .floatToBits x | .intFromBits x | .intToBits x => exprMembers x

def sourceMembers : Source → List String
  | .scalar x | .handle _ x => exprMembers x
  | .vector _ lanes => lanes.flatMap exprMembers
  | .nested .. => []

def stmtMembers : Stmt → List String
  | .assign member source => member :: sourceMembers source
  | .store _ parts => parts.flatMap exprMembers
  | .write _ _ (.member name) => [name]
  | _ => []

def Item.members : Item → List String
  | .struct _ members => members.map (·.1)
  | .function f => f.body.flatMap stmtMembers
  | _ => []

def Language.macros (l : Language) (items : List Item) : List String :=
  match l with
  | .glsl | .hlsl => items.filterMap Item.constant?
  | .wgsl => []

def constantNames (d : TypeDef) : List String :=
  (match d.body with
    | .union variants => variants.map (tagName d)
    | .struct _ | .missing => []) ++
  [d.name ++ "_size"]

section members

variable {m : Module} {d : TypeDef} {x : String}

def HasField (d : TypeDef) (x : String) : Prop :=
  ∃ fields, d.body = .struct fields ∧ ∃ f ∈ fields, f.name = x

theorem exprMembers_extractExpr (offset : UInt32) (kind : ScalarKind) :
    exprMembers (extractExpr offset kind) = [] := by
  cases hop : (Extract.plan offset kind).op <;> simp [extractExpr, hop, exprMembers]

theorem exprMembers_insertExpr (maskUnsigned : Bool) (offset : UInt32) (kind : ScalarKind)
    (value : Expr) :
    exprMembers (insertExpr maskUnsigned offset kind value) = exprMembers value := by
  unfold insertExpr
  by_cases hf : kind.isFloat = true <;> by_cases hs : kind.isSigned = true <;>
    by_cases hmask : (Insert.plan offset kind maskUnsigned).mask = 0 <;>
    by_cases hshift : (Insert.plan offset kind maskUnsigned).shift = 0 <;>
    simp [hf, hs, hmask, hshift, exprMembers]

theorem sourceMembers_fieldSource (m : Module) (f : Field) :
    sourceMembers (fieldSource m f) = [] := by
  cases hty : f.ty <;>
    simp [fieldSource, hty, sourceMembers, exprMembers_extractExpr]

theorem hasField_of_piece {fields : List Field} (hb : d.body = .struct fields) {p : Piece}
    {maskUnsigned : Bool} {e : Expr} (he : pieceExpr? maskUnsigned fields p = some e)
    (hx : x ∈ exprMembers e) : HasField d x := by
  obtain ⟨f, hf, he⟩ := Option.bind_eq_some_iff.mp he
  have hname : x = f.name := by
    cases hty : f.ty with
    | scalar k | vector k lanes | ref t =>
      simp only [hty, Option.some.injEq] at he
      simpa [← he, exprMembers_insertExpr, exprMembers] using hx
    | inline t | missing => simp [hty] at he
  exact ⟨fields, hb, f, List.mem_of_getElem? hf, hname.symm⟩

theorem hasField_of_write {fields : List Field} (hb : d.body = .struct fields) {p : Piece}
    {s : Stmt} (hs : pieceWrite? m fields p = some s) (hx : x ∈ stmtMembers s) : HasField d x := by
  obtain ⟨f, hf, hs⟩ := Option.bind_eq_some_iff.mp hs
  have hname : x = f.name := by
    cases hty : f.ty with
    | inline t =>
      simp only [hty, Option.some.injEq] at hs
      simpa [← hs, stmtMembers] using hx
    | _ => simp [hty] at hs
  exact ⟨fields, hb, f, List.mem_of_getElem? hf, hname.symm⟩

theorem hasField_of_readBody {fields : List Field} (hb : d.body = .struct fields) {s : Stmt}
    (hs : s ∈ readBody m d fields) (hx : x ∈ stmtMembers s) : HasField d x := by
  simp only [readBody, baseStmts, List.mem_append, List.mem_map, List.mem_ite_nil_right,
    List.mem_singleton] at hs
  rcases hs with (((⟨-, rfl⟩ | ⟨g, -, rfl⟩) | rfl) | ⟨f, hf, rfl⟩) | rfl
  · cases hx
  · cases hx
  · cases hx
  · rw [stmtMembers, sourceMembers_fieldSource, List.mem_singleton] at hx
    exact ⟨fields, hb, f, hf, hx.symm⟩
  · cases hx

theorem hasField_of_writeBody {fields : List Field} (hb : d.body = .struct fields)
    {maskUnsigned : Bool} {s : Stmt} (hs : s ∈ writeBody m maskUnsigned d fields)
    (hx : x ∈ stmtMembers s) : HasField d x := by
  simp only [writeBody, baseStmts, groupStmts, List.mem_append, List.mem_flatMap,
    List.mem_filterMap, List.mem_ite_nil_right, List.mem_ite_nil_left, List.mem_singleton] at hs
  rcases hs with ⟨-, rfl⟩ | ⟨g, -, ⟨p, -, hs⟩ | ⟨-, rfl⟩⟩
  · cases hx
  · exact hasField_of_write hb hs hx
  · obtain ⟨e, he, hx⟩ := List.mem_flatMap.mp hx
    obtain ⟨p, -, he⟩ := List.mem_filterMap.mp he
    exact hasField_of_piece hb he hx

theorem hasField_of_declaration {item : Item} (hi : item ∈ declarations m d)
    (hx : x ∈ item.members) : HasField d x := by
  cases hb : d.body with
  | struct fields =>
    simp only [declarations, hb, List.mem_append, List.mem_cons, List.not_mem_nil, or_false] at hi
    rcases hi with rfl | rfl | rfl | rfl
    · simp only [Item.members, List.map_map, List.mem_map, Function.comp_apply] at hx
      obtain ⟨f, hf, rfl⟩ := hx
      exact ⟨fields, hb, f, hf, rfl⟩
    · cases hx
    · cases hx
    · simp [Item.members, indexFunction, stmtMembers] at hx
  | union variants =>
    simp only [declarations, hb, List.mem_append, List.mem_map, List.mem_cons, List.not_mem_nil,
      or_false] at hi
    rcases hi with ⟨p, -, rfl⟩ | rfl | rfl | rfl
    · cases hx
    · cases hx
    · cases hx
    · simp [Item.members, indexFunction, stmtMembers] at hx
  | missing =>
    simp only [declarations, hb, List.nil_append, List.mem_cons, List.not_mem_nil,
      or_false] at hi
    rcases hi with rfl | rfl | rfl
    · cases hx
    · cases hx
    · simp [Item.members, indexFunction, stmtMembers] at hx

theorem hasField_of_accessor {maskUnsigned : Bool} {item : Item}
    (hi : item ∈ accessors m maskUnsigned d) (hx : x ∈ item.members) : HasField d x := by
  cases hb : d.body with
  | struct fields =>
    simp only [accessors, hb, List.mem_cons, List.mem_ite_nil_right, List.not_mem_nil,
      or_false] at hi
    rcases hi with rfl | ⟨-, rfl⟩
    · obtain ⟨s, hs, hx⟩ := List.mem_flatMap.mp hx
      exact hasField_of_readBody hb hs hx
    · obtain ⟨s, hs, hx⟩ := List.mem_flatMap.mp hx
      exact hasField_of_writeBody hb hs hx
  | union variants =>
    simp only [accessors, hb, List.cons_append, List.mem_cons, List.mem_append, List.mem_flatMap,
      List.mem_ite_nil_right] at hi
    rcases hi with rfl | ⟨v, -, hi⟩ | ⟨-, v, -, hi⟩
    · simp [Item.members, tagFunction, stmtMembers] at hx
    · cases hp : v.payload <;> simp [variantRead, hp] at hi <;>
        simp [hi, Item.members, stmtMembers] at hx
    · cases hp : v.payload <;> simp [variantWrite, hp] at hi <;>
        simp [hi, Item.members, stmtMembers] at hx
  | missing => simp [accessors, hb] at hi

variable {o : Options}

theorem constants_program :
    (program m o).items.filterMap Item.constant? = m.defs.flatMap constantNames := by
  have hopening : (opening m o).filterMap Item.constant? = [] := by
    rw [List.filterMap_eq_nil_iff]
    intro item hi
    rcases opening_cases hi with ⟨text, rfl⟩ | rfl | ⟨b, rfl⟩ | ⟨d, -, rfl⟩
    · rfl
    · rfl
    · rfl
    · rfl
  have htags : ∀ (d : TypeDef) (variants : List Variant) (n : Nat),
      ((variants.zipIdx n).map fun p =>
        Item.constant (tagName d p.1) (UInt32.ofNat p.2)).filterMap Item.constant? =
        variants.map (tagName d) := by
    intro d variants
    induction variants with
    | nil => simp
    | cons v variants ih => simp [List.zipIdx_cons, Item.constant?, ih]
  have hdecl : ∀ d, (declarations m d).filterMap Item.constant? = constantNames d := by
    intro d
    cases hb : d.body <;>
      simp [declarations, constantNames, hb, htags, List.filterMap_append, List.filterMap_cons,
        Item.constant?]
  have hacc : (m.defs.flatMap (accessors m o.maskUnsigned)).filterMap Item.constant? = [] := by
    rw [List.filterMap_eq_nil_iff]
    intro item hi
    obtain ⟨d, -, hi⟩ := List.mem_flatMap.mp hi
    rcases function_or_omitted hi with ⟨f, rfl⟩ | ⟨name, reason, rfl⟩
    · rfl
    · rfl
  rw [items_program, List.filterMap_append, List.filterMap_append, hopening, hacc,
    List.nil_append, List.append_nil, List.filterMap_flatMap]
  simp only [hdecl]

theorem hasField_iff_members :
    (∃ item ∈ (program m o).items, x ∈ item.members) ↔ ∃ d ∈ m.defs, HasField d x := by
  constructor
  · rintro ⟨item, hi, hx⟩
    rcases item_cases hi with ⟨text, rfl⟩ | rfl | ⟨b, rfl⟩ | ⟨d, hd, rfl | hi | hi⟩
    · cases hx
    · cases hx
    · cases hx
    · cases hx
    · exact ⟨d, hd, hasField_of_declaration hi hx⟩
    · exact ⟨d, hd, hasField_of_accessor hi hx⟩
  · rintro ⟨d, hd, fields, hb, f, hf, rfl⟩
    refine ⟨_, mem_items_of_declaration hd (struct_mem_declarations hb), ?_⟩
    simp only [Item.members, List.map_map, List.mem_map, Function.comp_apply]
    exact ⟨f, hf, rfl⟩

theorem mem_macros_iff {l : Language} (hl : l ≠ .wgsl) :
    x ∈ l.macros (program m o).items ↔ ∃ e ∈ m.defs, x ∈ constantNames e := by
  have hmacros : l.macros (program m o).items = m.defs.flatMap constantNames := by
    cases l with
    | glsl | hlsl => exact constants_program
    | wgsl => exact absurd rfl hl
  rw [hmacros, List.mem_flatMap]

theorem mem_macros_iff_defined {l : Language} {items : List Item} (buffer : String) :
    x ∈ l.macros items ↔ ∃ value, .constant x value ∈ items ∧
      l.itemText buffer (.constant x value) =
        "#define " ++ x ++ " " ++ toString value.toNat ++ "\n" := by
  have hconst : x ∈ items.filterMap Item.constant? ↔ ∃ value, .constant x value ∈ items := by
    rw [List.mem_filterMap]
    constructor
    · rintro ⟨item, hi, hx⟩
      cases item with
      | constant name value =>
        obtain rfl := Option.some.inj hx
        exact ⟨value, hi⟩
      | _ => cases hx
    · rintro ⟨value, hi⟩
      exact ⟨_, hi, rfl⟩
  cases l with
  | glsl | hlsl =>
    simp [Language.macros, hconst, Language.itemText, Language.item, Language.declareConstant,
      Code.line, String.append_assoc]
  | wgsl =>
    have hfirst : ∀ rest rest', "const " ++ rest ≠ "#define " ++ rest' := by
      intro rest rest' heq
      have hhead := congrArg (fun s => s.toList.head?) heq
      simp at hhead
    simp [Language.macros, Language.itemText, Language.item, Language.declareConstant,
      Code.line, String.append_assoc, hfirst]

end members

/-- Where constants are macros, a field that stands in the text is replaced exactly if a field of
the module has the name of a size or of a tag; the names of the buffer, the other declarations and
the locals are never replaced. -/
theorem members_replaced_iff {m : Module} {l : Language} {o : Options} {out : Output}
    (he : emit m l o = .ok out) (hl : l ≠ .wgsl) :
    ((∃ item ∈ out.program.items, ∃ x ∈ item.members, x ∈ l.macros out.program.items) ↔
      ∃ d ∈ m.defs, ∃ e ∈ m.defs, ∃ x ∈ constantNames e, HasField d x) ∧
    ∀ x ∈ l.macros out.program.items, x ≠ bufferName m o ∧
      ∀ item ∈ out.program.items, x ∉ l.itemLocals item ∧
        (x ∈ l.definitionNames item → ∃ value : Nat, l.itemText (bufferName m o) item =
          "#define " ++ x ++ " " ++ toString value ++ "\n") := by
  obtain ⟨-, ⟨used, hused⟩, hprog, -⟩ := emit_eq_ok he
  have ha := accepted_of_claimNames hused
  have hnodup := List.nodup_cons.mp (List.nodup_append.mp (nodup_names ha)).1
  rw [hprog]
  constructor
  · constructor
    · rintro ⟨item, hi, x, hx, hdef⟩
      obtain ⟨d, hd, hfield⟩ := hasField_iff_members.mp ⟨item, hi, hx⟩
      obtain ⟨e, he, hx⟩ := (mem_macros_iff hl).mp hdef
      exact ⟨d, hd, e, he, x, hx, hfield⟩
    · rintro ⟨d, hd, e, he, x, hx, hfield⟩
      obtain ⟨item, hi, hmem⟩ := (hasField_iff_members (o := o)).mpr ⟨d, hd, hfield⟩
      exact ⟨item, hi, x, hmem, (mem_macros_iff hl).mpr ⟨e, he, hx⟩⟩
  · intro x hx
    obtain ⟨value, hconst, htext⟩ := (mem_macros_iff_defined (bufferName m o)).mp hx
    have hname : x ∈ l.definitionNames (.constant x value) := List.mem_singleton_self x
    have hmem := mem_names_of_item hconst hname
    refine ⟨fun heq => hnodup.1 (heq ▸ hmem), fun item hi => ⟨fun hlocal => ?_, fun hdecl => ?_⟩⟩
    · exact notMem_names_of_blocked ha (l.blocked_itemLocals item x hlocal)
        (List.mem_cons_of_mem _ hmem)
    · obtain rfl := eq_of_mem_definitionNames hnodup.2 hconst hi hname hdecl
      exact ⟨value.toNat, htext⟩

theorem hasField_word (type field : String) : HasField (wordType type field) field :=
  ⟨_, rfl, _, List.mem_singleton_self _, rfl⟩

theorem emit_replaced : ∃ out, emit (wordModule "A" "A_size") .glsl {} = .ok out :=
  emit_ok (by cbv) (by decide) rfl

theorem members_replaced_word :
    ∃ out, emit (wordModule "A" "A_size") .glsl {} = .ok out ∧
      (∃ item ∈ out.program.items, ∃ x ∈ item.members,
        x ∈ Language.glsl.macros out.program.items) ∧
      "mem" ∉ Language.glsl.macros out.program.items := by
  obtain ⟨out, hout⟩ := emit_replaced
  obtain ⟨hiff, hother⟩ := members_replaced_iff hout (by decide)
  have hd := wordType_mem "A" "A_size"
  have hconst : "A_size" ∈ constantNames (wordType "A" "A_size") := List.mem_singleton_self _
  refine ⟨out, hout, hiff.mpr ⟨_, hd, _, hd, _, hconst, hasField_word _ _⟩, fun hx => ?_⟩
  exact (hother "mem" hx).1 rfl

theorem field_name_defined :
    ¬ ∀ (m : Module) (l : Language) (o : Options) (out : Output),
      emit m l o = .ok out → l ≠ .wgsl →
      ∀ d ∈ m.defs, ∀ x, HasField d x → x ∉ l.macros out.program.items := by
  intro h
  obtain ⟨out, hout⟩ := emit_replaced
  have hd := wordType_mem "A" "A_size"
  refine h _ .glsl _ out hout (by decide) _ hd "A_size" (hasField_word _ _) ?_
  rw [(emit_eq_ok hout).2.2.1]
  exact (mem_macros_iff (by decide)).mpr ⟨_, hd, List.mem_singleton_self _⟩

end WordLayout.Shader
