import Mathlib
import WordLayout.Proofs.Shader.Hygiene
import WordLayout.Proofs.Shader.Listing.Statements

namespace WordLayout.Shader

open Coverage Validation

def IsDef (m : Module) (x : String) : Prop := ∃ e ∈ m.defs, e.name = x

def IsStruct (m : Module) (x : String) : Prop :=
  ∃ e ∈ m.defs, e.name = x ∧ ∃ fields, e.body = .struct fields

def TypeName.Fits (m : Module) : TypeName → Prop
  | .scalar _ => True
  | .vector _ lanes => lanes = 2 ∨ lanes = 3 ∨ lanes = 4
  | .struct name => IsStruct m name
  | .handle name => IsDef m name

def Source.Fits (m : Module) (d : TypeDef) : Source → Prop
  | .scalar x => x.Over (HasField d)
  | .vector type lanes =>
    Listing.Constructible type ∧ lanes ≠ [] ∧ ∀ x ∈ lanes, x.Over (HasField d)
  | .nested name _ => IsStruct m name
  | .handle name x => IsDef m name ∧ x.Over (HasField d)

def Stmt.Fits (m : Module) (d : TypeDef) : Stmt → Prop
  | .base | .load _ | .returnStruct | .returnTag => True
  | .declare name | .returnRead name _ => IsStruct m name
  | .assign member source => HasField d member ∧ source.Fits m d
  | .store _ parts =>
    m.writable = true ∧ parts ≠ [] ∧ ∀ x ∈ parts, x.IsOperand (HasField d)
  | .write name _ a => m.writable = true ∧ IsStruct m name ∧ ∀ x, a = .member x → HasField d x
  | .storeTag c =>
    m.writable = true ∧ ∃ variants, d.body = .union variants ∧ ∃ v ∈ variants, c = tagName d v
  | .returnElement name => name = d.name

structure Function.Fits (m : Module) (d : TypeDef) (f : Function) : Prop where
  owner : f.owner = d.name
  extra : ∀ name, f.extra = .struct name → IsStruct m name
  result : ∀ type, f.result = some type →
    type = .handle d.name ∨ type = .scalar .u32 ∨ ∃ name, type = .struct name ∧ IsStruct m name
  body : ∀ s ∈ f.body, s.Fits m d

section expressions

variable {P : String → Prop}

theorem over_extractExpr (offset : UInt32) (kind : ScalarKind) :
    (extractExpr offset kind).Over P := by
  cases hop : (Extract.plan offset kind).op <;> simp [extractExpr, hop, Expr.Over, Expr.isPrimary]

theorem isOperand_insertExpr (maskUnsigned : Bool) (offset : UInt32) (kind : ScalarKind)
    {value : Expr} (hv : value.IsOperand P) :
    (insertExpr maskUnsigned offset kind value).IsOperand P := by
  unfold insertExpr
  extract_lets i bits masked
  have hbits : bits.IsOperand P := by
    unfold bits
    split
    · exact ⟨rfl, hv.2⟩
    · split
      · exact ⟨rfl, hv.2⟩
      · exact hv
  have hmasked : masked.IsOperand P := by
    unfold masked
    split
    · exact hbits
    · exact ⟨rfl, hbits⟩
  split
  · exact hmasked
  · exact ⟨rfl, hmasked⟩

end expressions

section functions

variable {m : Module} {d : TypeDef}

theorem IsStruct.isDef {x : String} (h : IsStruct m x) : IsDef m x := by
  obtain ⟨e, he, hname, -⟩ := h
  exact ⟨e, he, hname⟩

theorem constructible_memberType {k : ScalarKind} {lanes : UInt8}
    (hk : (Ty.vector k lanes).Known m) :
    Listing.Constructible (memberType m (.vector k lanes)) := by
  obtain ⟨-, hpos, hfour⟩ := hk
  by_cases hone : lanes = 1
  · rw [memberType, if_pos hone]
    trivial
  · rw [memberType, if_neg hone]
    have hne : lanes.toNat ≠ 1 := fun h => hone (UInt8.toNat_inj.mp h)
    have hcases : lanes.toNat = 2 ∨ lanes.toNat = 3 ∨ lanes.toNat = 4 := by omega
    rcases hcases with h | h | h
    · exact .inl (UInt8.toNat_inj.mp h)
    · exact .inr (.inl (UInt8.toNat_inj.mp h))
    · exact .inr (.inr (UInt8.toNat_inj.mp h))

variable (hv : m.validate = []) (hd : d ∈ m.defs)
include hv hd

theorem isStruct_of_dependency {t : Handle} (ht : t ∈ dependencies m d) :
    IsStruct m (m.nameOf t) := by
  obtain ⟨before, after, hdefs⟩ := List.append_of_mem hd
  obtain ⟨e, fields, he, hb, -⟩ := struct_of_dependency hv hdefs ht
  rw [nameOf_eq he]
  exact ⟨e, m.mem_of_def? he, rfl, fields, hb⟩

section structs

variable {fields : List Field} (hb : d.body = .struct fields)
include hb

theorem fits_memberType {f : Field} (hf : f ∈ fields) : (memberType m f.ty).Fits m := by
  obtain ⟨hk, -⟩ := field_known hv hd hb hf
  cases hty : f.ty with
  | scalar k => trivial
  | vector k lanes =>
    rw [hty] at hk
    have hcons := constructible_memberType hk
    rw [memberType] at hcons ⊢
    split
    · trivial
    · rename_i hone
      rwa [if_neg hone] at hcons
  | inline t => exact isStruct_of_dependency hv hd (inline_mem_dependencies hv hd hb hf hty)
  | ref t =>
    rw [hty] at hk
    obtain ⟨e, he, -⟩ := hk
    exact ⟨e, m.mem_of_def? he, (nameOf_eq he).symm⟩
  | missing =>
    rw [hty] at hk
    cases hk

theorem fits_fieldSource {f : Field} (hf : f ∈ fields) : (fieldSource m f).Fits m d := by
  obtain ⟨hk, -⟩ := field_known hv hd hb hf
  cases hty : f.ty with
  | scalar k =>
    rw [fieldSource, hty]
    exact over_extractExpr _ _
  | vector k lanes =>
    rw [hty] at hk
    have hne : lanes.toNat ≠ 0 := Nat.one_le_iff_ne_zero.mp hk.2.1
    rw [fieldSource, hty]
    refine ⟨constructible_memberType hk, by simp [hne], fun x hx => ?_⟩
    obtain ⟨lane, -, rfl⟩ := List.mem_map.mp hx
    exact over_extractExpr _ _
  | inline t =>
    rw [fieldSource, hty]
    exact isStruct_of_dependency hv hd (inline_mem_dependencies hv hd hb hf hty)
  | ref t =>
    rw [hty] at hk
    obtain ⟨e, he, -⟩ := hk
    rw [fieldSource, hty]
    exact ⟨⟨e, m.mem_of_def? he, (nameOf_eq he).symm⟩, over_extractExpr _ _⟩
  | missing =>
    rw [hty] at hk
    cases hk

theorem fits_readFunction : (readFunction m d fields).Fits m d where
  owner := rfl
  extra := nofun
  result type htype := by
    obtain rfl := Option.some.inj htype
    exact .inr (.inr ⟨d.name, rfl, d, hd, rfl, fields, hb⟩)
  body s hs := by
    simp only [readFunction, readBody, baseStmts, List.mem_append, List.mem_map,
      List.mem_ite_nil_right, List.mem_singleton] at hs
    rcases hs with (((⟨-, rfl⟩ | ⟨g, -, rfl⟩) | rfl) | ⟨f, hf, rfl⟩) | rfl
    · trivial
    · trivial
    · exact ⟨d, hd, rfl, fields, hb⟩
    · exact ⟨⟨fields, hb, f, hf, rfl⟩, fits_fieldSource hv hd hb hf⟩
    · trivial

theorem fits_pieceExpr {p : Piece} (hp : p ∈ pieces .write fields) {maskUnsigned : Bool} {e : Expr}
    (he : pieceExpr? maskUnsigned fields p = some e) : e.IsOperand (HasField d) := by
  obtain ⟨f, hf, he⟩ := Option.bind_eq_some_iff.mp he
  obtain ⟨i, f', hi, hpf⟩ := mem_pieces_iff.mp hp
  obtain rfl := field_of_mem_piecesOf hpf
  obtain rfl := Option.some.inj (hf.symm.trans hi)
  have hmem := List.mem_of_getElem? hf
  have hfield : HasField d f.name := ⟨fields, hb, f, hmem, rfl⟩
  obtain ⟨hk, -⟩ := field_known hv hd hb hmem
  cases hty : f.ty with
  | scalar k =>
    simp only [hty, Option.some.injEq] at he
    rw [← he]
    exact isOperand_insertExpr _ _ _ ⟨rfl, hfield, nofun⟩
  | vector k lanes =>
    rw [hty] at hk
    simp only [piecesOf, hty, List.mem_flatMap, List.mem_range, List.mem_map] at hpf
    obtain ⟨lane, hlane, part, -, heq⟩ := hpf
    simp only [hty, Option.some.injEq, ← congrArg Piece.lane heq] at he
    rw [← he]
    refine isOperand_insertExpr _ _ _ ⟨rfl, hfield, fun n hn => ?_⟩
    split at hn
    · obtain rfl := Option.some.inj hn
      exact hlane.trans_le hk.2.2
    · cases hn
  | ref t =>
    simp only [hty, Option.some.injEq] at he
    rw [← he]
    exact ⟨rfl, hfield⟩
  | inline t | missing => simp [hty] at he

theorem fits_pieceWrite (hwr : m.writable = true) {p : Piece} {s : Stmt}
    (hs : pieceWrite? m fields p = some s) : s.Fits m d := by
  obtain ⟨f, hf, hs⟩ := Option.bind_eq_some_iff.mp hs
  have hmem := List.mem_of_getElem? hf
  cases hty : f.ty with
  | inline t =>
    simp only [hty, Option.some.injEq] at hs
    rw [← hs]
    refine ⟨hwr, isStruct_of_dependency hv hd (inline_mem_dependencies hv hd hb hmem hty), ?_⟩
    rintro x ⟨⟩
    exact ⟨fields, hb, f, hmem, rfl⟩
  | _ => simp [hty] at hs

theorem fits_writeFunction (hwr : m.writable = true) (maskUnsigned : Bool) :
    (writeFunction m maskUnsigned d fields).Fits m d where
  owner := rfl
  extra name hname := by
    obtain rfl := Extra.struct.inj hname
    exact ⟨d, hd, rfl, fields, hb⟩
  result := nofun
  body s hs := by
    simp only [writeFunction, writeBody, baseStmts, groupStmts, List.mem_append, List.mem_flatMap,
      List.mem_filterMap, List.mem_ite_nil_right, List.mem_ite_nil_left, List.mem_singleton] at hs
    rcases hs with ⟨-, rfl⟩ | ⟨g, hg, ⟨p, -, hs⟩ | ⟨hne, rfl⟩⟩
    · trivial
    · exact fits_pieceWrite hv hd hb hwr hs
    · refine ⟨hwr, by simpa using hne, fun e he => ?_⟩
      obtain ⟨p, hp, he⟩ := List.mem_filterMap.mp he
      exact fits_pieceExpr hv hd hb (of_mem_group hg hp).1 he

end structs

omit hv hd in
theorem fits_indexFunction : (indexFunction d).Fits m d where
  owner := rfl
  extra := nofun
  result type htype := .inl (Option.some.inj htype).symm
  body s hs := by
    obtain rfl := List.mem_singleton.mp hs
    rfl

omit hv hd in
theorem fits_tagFunction : (tagFunction d).Fits m d where
  owner := rfl
  extra := nofun
  result type htype := .inr (.inl (Option.some.inj htype).symm)
  body s hs := by
    obtain rfl := List.mem_singleton.mp hs
    trivial

section unions

variable {variants : List Variant} (hb : d.body = .union variants) {v : Variant}
  (hvar : v ∈ variants) {f : Function}
include hb hvar

theorem fits_variantRead (hf : .function f ∈ variantRead m d v) : f.Fits m d := by
  cases hp : v.payload with
  | struct at_ t =>
    simp only [variantRead, hp, List.mem_singleton, Item.function.injEq] at hf
    have htarget := isStruct_of_dependency hv hd (payload_mem_dependencies hv hd hb hvar hp)
    subst hf
    refine ⟨rfl, fun name hname => ?_, fun type htype => ?_, List.forall_mem_singleton.mpr htarget⟩
    · cases hname
    · obtain rfl := Option.some.inj htype
      exact .inr (.inr ⟨_, rfl, htarget⟩)
  | _ => simp [variantRead, hp] at hf

theorem fits_variantWrite (hwr : m.writable = true) (hf : .function f ∈ variantWrite m d v) :
    f.Fits m d := by
  have htag : (Stmt.storeTag (tagName d v)).Fits m d := ⟨hwr, variants, hb, v, hvar, rfl⟩
  cases hp : v.payload with
  | empty =>
    simp only [variantWrite, hp, List.mem_singleton, Item.function.injEq] at hf
    subst hf
    refine ⟨rfl, fun name hname => ?_, fun type htype => ?_, List.forall_mem_singleton.mpr htag⟩
    · cases hname
    · cases htype
  | struct at_ t =>
    simp only [variantWrite, hp, List.mem_singleton, Item.function.injEq] at hf
    have htarget := isStruct_of_dependency hv hd (payload_mem_dependencies hv hd hb hvar hp)
    subst hf
    refine ⟨rfl, fun name hname => ?_, fun type htype => ?_, List.forall_mem_cons.mpr
      ⟨htag, List.forall_mem_singleton.mpr ⟨hwr, htarget, fun x hx => ?_⟩⟩⟩
    · obtain rfl := Extra.struct.inj hname
      exact htarget
    · cases htype
    · cases hx
  | _ => simp [variantWrite, hp] at hf

end unions

end functions

theorem exists_fits {m : Module} {o : Options} (hv : m.validate = []) {f : Function}
    (hf : .function f ∈ (program m o).items) : ∃ d ∈ m.defs, f.Fits m d := by
  rcases item_cases hf with ⟨text, heq⟩ | heq | ⟨b, heq⟩ | ⟨d, hd, heq | hi | hi⟩
  · cases heq
  · cases heq
  · cases heq
  · cases heq
  · refine ⟨d, hd, ?_⟩
    have hindex : f = indexFunction d := by
      cases hb : d.body <;> simpa [declarations, hb] using hi
    rw [hindex]
    exact fits_indexFunction
  · refine ⟨d, hd, ?_⟩
    cases hb : d.body with
    | struct fields =>
      simp only [accessors, hb, List.mem_cons, List.mem_ite_nil_right, List.not_mem_nil,
        or_false, Item.function.injEq] at hi
      rcases hi with rfl | ⟨hwr, rfl⟩
      · exact fits_readFunction hv hd hb
      · exact fits_writeFunction hv hd hb hwr _
    | union variants =>
      simp only [accessors, hb, List.cons_append, List.mem_cons, List.mem_append,
        List.mem_flatMap, List.mem_ite_nil_right, Item.function.injEq] at hi
      rcases hi with rfl | ⟨v, hvar, hi⟩ | ⟨hwr, v, hvar, hi⟩
      · exact fits_tagFunction
      · exact fits_variantRead hv hd hb hvar hi
      · exact fits_variantWrite hv hd hb hvar hwr hi
    | missing => simp [accessors, hb] at hi

end WordLayout.Shader
