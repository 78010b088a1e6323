import Mathlib
import WordLayout.Proofs.Shader.Execution
import WordLayout.Proofs.Shader.Listing.Spelling

namespace WordLayout.Shader

def Expr.Over (P : String → Prop) : Expr → Prop
  | .raw _ => True
  | .member name lane => P name ∧ ∀ n ∈ lane, n < 4
  | .offset name => P name
  | .mask x _ | .shiftLeft x _ | .shiftRight x _ => x.isPrimary = true ∧ x.Over P
  | .group x | .floatFromBits x | .floatToBits x | .intFromBits x | .intToBits x => x.Over P

theorem Expr.Over.imp {P Q : String → Prop} (h : ∀ x, P x → Q x) {e : Expr} (he : e.Over P) :
    e.Over Q := by
  induction e with
  | raw w => trivial
  | member name lane => exact ⟨h name he.1, he.2⟩
  | offset name => exact h name he
  | mask x bits ih | shiftLeft x n ih | shiftRight x n ih => exact ⟨he.1, ih he.2⟩
  | group x ih | floatFromBits x ih | floatToBits x ih | intFromBits x ih | intToBits x ih =>
    exact ih he

def Expr.IsOperand (P : String → Prop) (e : Expr) : Prop := e.isPrimary = true ∧ e.Over P

namespace Listing

section names

theorem isWordChar_digitChar {d : Nat} (hd : d < 16) : isWordChar (Nat.digitChar d) = true := by
  interval_cases d <;> rfl

theorem isWordChar_toDigits {base : Nat} (hbase : 1 < base) (hbase' : base ≤ 16) (n : Nat) :
    ∀ c ∈ Nat.toDigits base n, isWordChar c = true :=
  forall_mem_toDigits hbase (fun _ hd => isWordChar_digitChar (hd.trans_le hbase')) n

theorem decimal_toList (n : Nat) : (toString n).toList = Nat.toDigits 10 n := by
  rw [Nat.toString_eq_ofList_toDigits, String.toList_ofList]

theorem isIdentifier_append {x s : String} (hx : Text.isIdentifier x = true)
    (hs : ∀ c ∈ s.toList, isWordChar c = true) : Text.isIdentifier (x ++ s) = true := by
  unfold Text.isIdentifier at hx ⊢
  rw [String.toList_append]
  cases h : x.toList with
  | nil =>
    rw [h] at hx
    cases hx
  | cons c cs =>
    rw [h] at hx
    simp only [Text.isIdentifierChars, Bool.and_eq_true, List.all_eq_true] at hx
    rw [List.cons_append]
    simp only [Text.isIdentifierChars, Bool.and_eq_true, List.all_eq_true, List.forall_mem_append]
    exact ⟨hx.1, hx.2, hs⟩

theorem isWord_literal {l : Language} {s : String} (hne : s.toList ≠ [])
    (h : ∀ c ∈ s.toList, isWordChar c = true) : IsWord (s ++ l.literalEnd) := by
  refine ⟨by simp [hne], ?_⟩
  rw [String.toList_append, List.forall_mem_append]
  refine ⟨h, ?_⟩
  cases l with
  | glsl | hlsl => exact nofun
  | wgsl => exact List.forall_mem_singleton.mpr rfl

theorem not_identifier_of_digit {s : String} {c : Char} (hc : c ∈ s.toList.head?)
    (hd : Text.isIdentifierStart c = false) : Text.isIdentifier s = false := by
  cases hs : s.toList with
  | nil =>
    rw [hs] at hc
    cases hc
  | cons a cs =>
    rw [hs] at hc
    obtain rfl := Option.some.inj hc
    rw [Text.isIdentifier, hs, Text.isIdentifierChars, hd, Bool.false_and]

theorem decimal_head (n : Nat) :
    ∃ c ∈ (toString n).toList.head?, Text.isIdentifierStart c = false := by
  rw [decimal_toList]
  cases hd : Nat.toDigits 10 n with
  | nil => exact absurd hd Nat.toDigits_ne_nil
  | cons c cs =>
    have hstart : ∀ d < 10, Text.isIdentifierStart (Nat.digitChar d) = false := by
      intro d hlt
      interval_cases d <;> rfl
    have hall : ∀ c ∈ Nat.toDigits 10 n, Text.isIdentifierStart c = false :=
      forall_mem_toDigits (by decide) hstart n
    rw [hd] at hall
    exact ⟨c, rfl, hall c List.mem_cons_self⟩

theorem head_append {s s' : String} {c : Char} (h : c ∈ s.toList.head?) :
    c ∈ (s ++ s').toList.head? := by
  cases hs : s.toList with
  | nil =>
    rw [hs] at h
    cases h
  | cons a cs =>
    rw [hs] at h
    simpa [hs] using h

variable (l : Language)

theorem isWord_uint (n : UInt32) : IsWord (l.uint n) := by
  apply isWord_literal
  · rw [decimal_toList]
    exact Nat.toDigits_ne_nil
  · rw [decimal_toList]
    exact isWordChar_toDigits (by decide) (by decide) _

theorem isWord_hex (n : UInt32) : IsWord (l.hex n) := by
  apply isWord_literal
  · simp
  · rw [String.toList_append, hexDigits_toList, List.forall_mem_append]
    exact ⟨by simpa using ⟨rfl, rfl⟩, isWordChar_toDigits (by decide) (by decide) _⟩

theorem uint_not_identifier (n : UInt32) : Text.isIdentifier (l.uint n) = false := by
  obtain ⟨c, hc, hd⟩ := decimal_head n.toNat
  exact not_identifier_of_digit (head_append hc) hd

theorem hex_not_identifier (n : UInt32) : Text.isIdentifier (l.hex n) = false :=
  not_identifier_of_digit (head_append (head_append rfl)) (c := '0') rfl

variable {l} {mac : Macros} (hmac : Underscored mac)
include hmac

theorem kept_decimal (x : String) (hx : Text.isIdentifier x = true) (h : '_' ∉ x.toList) (n : Nat) :
    Kept mac (x ++ toString n) := by
  apply hmac.kept
  · apply isIdentifier_append hx
    rw [decimal_toList]
    exact isWordChar_toDigits (by decide) (by decide) n
  · rw [String.toList_append, List.mem_append, decimal_toList]
    rintro (hmem | hmem)
    · exact h hmem
    · cases Nat.isDigit_of_mem_toDigits (by decide) (by decide) hmem

theorem kept_rawName (w : UInt32) : Kept mac (rawName w) :=
  kept_decimal hmac "raw" rfl (by decide) w.toNat

theorem kept_handleParam (l : Language) : Kept mac l.handleParam := by
  cases l <;> exact hmac.kept rfl (by decide)

theorem kept_s : Kept mac "s" := hmac.kept rfl (by decide)

theorem kept_ix : Kept mac "ix" := hmac.kept rfl (by decide)

theorem kept_laneName {lane : Nat} (h : lane < 4) : Kept mac (laneName lane) := by
  interval_cases lane <;> exact hmac.kept rfl (by decide)

theorem operand_number {w : String} {n : UInt32} (hw : IsWord w)
    (hid : Text.isIdentifier w = false) (hn : literal? l w = some n) :
    Operand l mac w (.literal n) := by
  refine operand_word hw (hmac.lookup_eq_none hid) ?_
  rw [atom?, hid, hn]
  rfl

theorem operand_uint (n : UInt32) : Operand l mac (l.uint n) (.literal n) :=
  operand_number hmac (isWord_uint l n) (uint_not_identifier l n) (literal?_uint l n)

theorem operand_hex (n : UInt32) : Operand l mac (l.hex n) (.literal n) :=
  operand_number hmac (isWord_hex l n) (hex_not_identifier l n) (literal?_hex l n)

end names

section expressions

def floatFromBitsName : Language → String
  | .glsl => "uintBitsToFloat"
  | .hlsl => "asfloat"
  | .wgsl => "bitcast<f32>"

def floatToBitsName : Language → String
  | .glsl => "floatBitsToUint"
  | .hlsl => "asuint"
  | .wgsl => "bitcast<u32>"

def term (l : Language) : Expr → Term
  | .raw word => .name (rawName word)
  | .member name none => .member (.name "s") name
  | .member name (some lane) => .member (.member (.name "s") name) (laneName lane)
  | .offset name => .member (.member (.name "s") name) "offset"
  | .mask x bits => .binary .and (term l x) (.literal bits)
  | .shiftLeft x n => .binary .shiftLeft (term l x) (.literal n)
  | .shiftRight x n => .binary .shiftRight (term l x) (.literal n)
  | .group x => term l x
  | .floatFromBits x => .apply (floatFromBitsName l) [term l x]
  | .floatToBits x => .apply (floatToBitsName l) [term l x]
  | .intFromBits x => .apply (l.scalarType .i32) [term l x]
  | .intToBits x => .apply (l.scalarType .u32) [term l x]

variable {l : Language} {mac : Macros}

section casts

variable (hmac : Underscored mac)
include hmac

theorem opening_literal (x : String) {s : String} (hs : s = x ++ "(")
    (hx : Text.isIdentifier x = true) (h : '_' ∉ x.toList) : Opening l mac s x :=
  hs ▸ opening_name (hmac.kept hx h)

theorem opening_bitcast {x s f : String} (hx : Kept mac x) (hf : f = "bitcast" ++ "<" ++ x ++ ">")
    (hs : s = f ++ "(") : Opening .wgsl mac s f := by
  rw [hs, hf]
  exact opening_template (hmac.kept rfl (by decide)) hx

theorem operand_floatFromBits {s : String} {t : Term} (h : Whole l mac s t) :
    Operand l mac (l.floatFromBits s) (.apply (floatFromBitsName l) [t]) := by
  cases l with
  | glsl => exact (opening_literal hmac "uintBitsToFloat" rfl rfl (by decide)).arg h
  | hlsl => exact (opening_literal hmac "asfloat" rfl rfl (by decide)).arg h
  | wgsl => exact (opening_bitcast hmac (x := "f32") (hmac.kept rfl (by decide)) rfl rfl).arg h

theorem operand_floatToBits {s : String} {t : Term} (h : Whole l mac s t) :
    Operand l mac (l.floatToBits s) (.apply (floatToBitsName l) [t]) := by
  cases l with
  | glsl => exact (opening_literal hmac "floatBitsToUint" rfl rfl (by decide)).arg h
  | hlsl => exact (opening_literal hmac "asuint" rfl rfl (by decide)).arg h
  | wgsl => exact (opening_bitcast hmac (x := "u32") (hmac.kept rfl (by decide)) rfl rfl).arg h

theorem operand_intFromBits {s : String} {t : Term} (h : Whole l mac s t) :
    Operand l mac (l.intFromBits s) (.apply (l.scalarType .i32) [t]) := by
  cases l with
  | glsl | hlsl => exact (opening_literal hmac "int" rfl rfl (by decide)).arg h
  | wgsl => exact (opening_literal hmac "i32" rfl rfl (by decide)).arg h

theorem operand_intToBits {s : String} {t : Term} (h : Whole l mac s t) :
    Operand l mac (l.intToBits s) (.apply (l.scalarType .u32) [t]) := by
  cases l with
  | glsl | hlsl => exact (opening_literal hmac "uint" rfl rfl (by decide)).arg h
  | wgsl => exact (opening_literal hmac "u32" rfl rfl (by decide)).arg h

theorem operand_s_member {x : String} (hx : Kept mac x) :
    Operand l mac ("s." ++ x) (.member (.name "s") x) :=
  (operand_name (kept_s hmac)).member hx

theorem read_expr {e : Expr} (he : e.Over (Kept mac)) :
    Whole l mac (l.expr e) (term l e) ∧
      (e.isPrimary = true → Operand l mac (l.expr e) (term l e)) := by
  have hprimary : ∀ {s t} {p : Prop}, Operand l mac s t →
      Whole l mac s t ∧ (p → Operand l mac s t) := fun h => ⟨h.whole, fun _ => h⟩
  induction e with
  | raw w => exact hprimary (operand_name (kept_rawName hmac w))
  | member name lane =>
    cases lane with
    | none => exact hprimary (operand_s_member hmac he.1)
    | some n =>
      have hlane := kept_laneName hmac (he.2 n rfl)
      exact hprimary ((operand_s_member hmac he.1).member hlane)
  | offset name =>
    have hoffset : Kept mac "offset" := hmac.kept rfl (by decide)
    have hmember := (operand_s_member (l := l) hmac he).member hoffset
    rw [String.append_assoc] at hmember
    exact hprimary hmember
  | mask x bits ih => exact ⟨((ih he.2).2 he.1).binary .and (operand_hex hmac bits), nofun⟩
  | shiftLeft x n ih => exact ⟨((ih he.2).2 he.1).binary .shiftLeft (operand_uint hmac n), nofun⟩
  | shiftRight x n ih => exact ⟨((ih he.2).2 he.1).binary .shiftRight (operand_uint hmac n), nofun⟩
  | group x ih => exact hprimary (ih he).1.group
  | floatFromBits x ih => exact hprimary (operand_floatFromBits hmac (ih he).1)
  | floatToBits x ih => exact hprimary (operand_floatToBits hmac (ih he).1)
  | intFromBits x ih => exact hprimary (operand_intFromBits hmac (ih he).1)
  | intToBits x ih => exact hprimary (operand_intToBits hmac (ih he).1)

end casts

end expressions

section sources

def wide (k : ScalarKind) : ScalarKind :=
  if k.isFloat then .f32 else if k.isSigned then .i32 else .u32

theorem wide_cases (k : ScalarKind) : wide k = .f32 ∨ wide k = .i32 ∨ wide k = .u32 := by
  unfold wide
  split_ifs <;> simp

theorem scalarType_wide (l : Language) (k : ScalarKind) :
    l.scalarType (wide k) = l.scalarType k := by
  cases l <;> cases k <;> rfl

theorem vectorType_wide (l : Language) (k : ScalarKind) (lanes : UInt8) :
    l.vectorType (wide k) lanes = l.vectorType k lanes := by
  cases l <;> cases k <;> rfl

def Constructible : TypeName → Prop
  | .scalar _ => True
  | .vector _ lanes => lanes = 2 ∨ lanes = 3 ∨ lanes = 4
  | .struct _ | .handle _ => False

variable {l : Language} {mac : Macros} (hmac : Underscored mac)
include hmac

theorem kept_scalarType (l : Language) (k : ScalarKind) : Kept mac (l.scalarType k) := by
  rw [← scalarType_wide]
  rcases wide_cases k with h | h | h <;> rw [h] <;> cases l <;> exact hmac.kept rfl (by decide)

theorem kept_uintType (l : Language) : Kept mac l.uintType := kept_scalarType hmac l .u32

theorem kept_vectorType (hl : l ≠ .wgsl) (k : ScalarKind) {lanes : UInt8}
    (h : lanes = 2 ∨ lanes = 3 ∨ lanes = 4) : Kept mac (l.vectorType k lanes) := by
  rw [← vectorType_wide]
  cases l with
  | glsl | hlsl =>
    rcases wide_cases k with hk | hk | hk <;> rw [hk] <;> rcases h with rfl | rfl | rfl <;>
      exact hmac.kept rfl (by decide)
  | wgsl => exact absurd rfl hl

theorem kept_vec {lanes : UInt8} (h : lanes = 2 ∨ lanes = 3 ∨ lanes = 4) :
    Kept mac ("vec" ++ toString lanes.toNat) := by
  rcases h with rfl | rfl | rfl <;> exact hmac.kept rfl (by decide)

theorem opening_vectorType (k : ScalarKind) {lanes : UInt8}
    (h : lanes = 2 ∨ lanes = 3 ∨ lanes = 4) :
    Opening l mac (l.vectorType k lanes ++ "(") (l.vectorType k lanes) := by
  cases l with
  | glsl => exact opening_name (kept_vectorType hmac (l := .glsl) nofun k h)
  | hlsl => exact opening_name (kept_vectorType hmac (l := .hlsl) nofun k h)
  | wgsl => exact opening_template (kept_vec hmac h) (kept_scalarType hmac .wgsl k)

theorem opening_typeName {type : TypeName} (h : Constructible type) :
    Opening l mac (l.typeName type ++ "(") (l.typeName type) := by
  cases type with
  | scalar k => exact opening_name (kept_scalarType hmac l k)
  | vector k lanes => exact opening_vectorType hmac k h
  | struct name => cases h
  | handle name => cases h

end sources

section statements

def distanceTerm (l : Language) (distance : UInt32) : Term :=
  if distance = 0 then .member (.name l.handleParam) "offset"
  else .binary .add (.member (.name l.handleParam) "offset") (.literal distance)

def handleTerm (l : Language) (name : String) (offset : Term) : Term :=
  .apply (l.handleMaker name) [offset]

def sourceTerm (l : Language) : Source → Term
  | .scalar x => term l x
  | .vector type lanes => .apply (l.typeName type) (lanes.map (term l))
  | .nested name distance => .apply (name ++ "_read") [handleTerm l name (distanceTerm l distance)]
  | .handle name x => handleTerm l name (term l x)

def firstTerm (l : Language) : Term :=
  .binary .shiftRight (.member (.name l.handleParam) "offset") (.literal 2)

def wordTerm (buffer : String) (i : UInt32) : Term :=
  .element (.name buffer) (.binary .add (.name "ix") (.literal i))

def tagTerm (l : Language) (buffer : String) : Term := .element (.name buffer) (firstTerm l)

def argumentTerm : Argument → Term
  | .whole => .name "s"
  | .member name => .member (.name "s") name

def orTerm : List Term → Term
  | [] => .literal 0
  | t :: ts => ts.foldl (.binary .or) t

def localType (l : Language) : Option String :=
  match l with
  | .glsl | .hlsl => some l.uintType
  | .wgsl => none

def statement (l : Language) (buffer : String) (constant : String → Term) : Stmt → Statement
  | .base => .define "ix" (localType l) (firstTerm l)
  | .load w => .define (rawName w) (localType l) (wordTerm buffer w)
  | .declare name => .declare "s" name
  | .assign member source => .assign (.member (.name "s") member) (sourceTerm l source)
  | .returnStruct => .finish (.name "s")
  | .store w parts => .assign (wordTerm buffer w) (orTerm (parts.map (term l)))
  | .write name distance a =>
    .run (.apply (name ++ "_write") [handleTerm l name (distanceTerm l distance), argumentTerm a])
  | .returnRead name distance =>
    .finish (.apply (name ++ "_read") [handleTerm l name (distanceTerm l distance)])
  | .returnTag => .finish (tagTerm l buffer)
  | .storeTag c => .assign (tagTerm l buffer) (constant c)
  | .returnElement name =>
    .finish (handleTerm l name (.binary .add (.member (.name l.handleParam) "offset")
      (.binary .mul (.name "index") (constant (name ++ "_size")))))

end statements

end Listing

def Source.Readable (l : Language) (mac : Listing.Macros) : Source → Prop
  | .scalar x => x.Over (Listing.Kept mac)
  | .vector type lanes =>
    Listing.Constructible type ∧ lanes ≠ [] ∧ ∀ x ∈ lanes, x.Over (Listing.Kept mac)
  | .nested name _ => Listing.Kept mac (name ++ "_read") ∧ Listing.Kept mac (l.handleMaker name)
  | .handle name x => Listing.Kept mac (l.handleMaker name) ∧ x.Over (Listing.Kept mac)

def Stmt.Readable (l : Language) (mac : Listing.Macros) (buffer : String)
    (constant : String → Listing.Term) : Stmt → Prop
  | .base | .returnStruct => True
  | .load _ | .returnTag => Listing.Kept mac buffer
  | .declare name => Listing.Kept mac name ∧ name ≠ "return"
  | .assign member source => Listing.Kept mac member ∧ source.Readable l mac
  | .store _ parts =>
    Listing.Kept mac buffer ∧ buffer ≠ "return" ∧ parts ≠ [] ∧
      ∀ x ∈ parts, x.IsOperand (Listing.Kept mac)
  | .write name _ a =>
    Listing.Kept mac (name ++ "_write") ∧ Listing.Kept mac (l.handleMaker name) ∧
      ∀ x, a = .member x → Listing.Kept mac x
  | .returnRead name _ =>
    Listing.Kept mac (name ++ "_read") ∧ Listing.Kept mac (l.handleMaker name)
  | .storeTag c =>
    Listing.Kept mac buffer ∧ buffer ≠ "return" ∧ Listing.Operand l mac c (constant c)
  | .returnElement name =>
    Listing.Kept mac (l.handleMaker name) ∧
      Listing.Operand l mac (name ++ "_size") (constant (name ++ "_size"))

namespace Listing

variable {l : Language} {mac : Macros}

section lines

variable {s s' : String} {t t' : Term}

theorem readTerm_whole (h : Whole l mac s t) {c : Char} {rest : List Char}
    (hc : c = '=' ∨ c = ';') :
    readTerm l (toks mac (s.toList ++ c :: rest)) = some (t, .mark c :: toks mac rest) := by
  obtain ⟨chain, last, rfl, hread⟩ := h.read
  rcases hc with rfl | rfl
  · rw [readTerm, hread _ _ (stop_cons rfl _), toks_mark rfl, readFrom]
  · rw [readTerm, hread _ _ (stop_cons rfl _), toks_mark rfl, readFrom]

theorem readLast_whole (h : Whole l mac s t) :
    readLast l (toks mac (s.toList ++ [';'])) = some t := by
  rw [readLast, readTerm_whole h (.inr rfl)]
  rfl

theorem readEffect_assign (h : Whole l mac s t) (h' : Whole l mac s' t') :
    readEffect l (toks mac (s ++ " = " ++ s' ++ ";").toList) = some (.assign t t') := by
  obtain ⟨chain, last, rfl, hread⟩ := h.read
  have hlist : (s ++ " = " ++ s' ++ ";").toList =
      s.toList ++ ' ' :: '=' :: ' ' :: (s'.toList ++ [';']) := by simp
  have hterm : readTerm l (toks mac (s.toList ++ ' ' :: '=' :: ' ' :: (s'.toList ++ [';']))) =
      some (resolve chain last, .mark '=' :: toks mac (s'.toList ++ [';'])) := by
    rw [readTerm, hread _ _ (stop_cons rfl _), toks_space, toks_mark rfl, toks_space, readFrom]
  rw [hlist, readEffect, hterm]
  simp only [readLast_whole h', Option.map_some]

theorem readEffect_run (h : Whole l mac s t) :
    readEffect l (toks mac (s ++ ";").toList) = some (.run t) := by
  have hlist : (s ++ ";").toList = s.toList ++ [';'] := by simp
  rw [hlist, readEffect, readTerm_whole h (.inr rfl)]
  rfl

structure Line (l : Language) (mac : Macros) (s : String) (st : Statement) : Prop where
  plain : Plain s
  read : readStatement l (toks mac s.toList) = some st

theorem line_of_effect {x : String} {c : Char} {cs : List Char} {st : Statement} (hs : Plain s)
    (hx : Kept mac x) (hne : x ≠ "return") (hc : isMark c = true)
    (hlist : s.toList = x.toList ++ c :: cs) (h : readEffect l (toks mac s.toList) = some st) :
    Line l mac s st where
  plain := hs
  read := by
    have htoks : toks mac s.toList = .word x :: .mark c :: toks mac cs := by
      rw [hlist, toks_kept hx (stop_mark hc _), toks_mark hc]
    rw [← h, htoks, readStatement, if_neg hne]
    exact fun _ _ heq => by cases heq

variable (hmac : Underscored mac)
include hmac

theorem line_return (h : Whole l mac s t) : Line l mac ("return " ++ s ++ ";") (.finish t) where
  plain := by
    simp only [plain_append]
    exact ⟨⟨rfl, h.plain⟩, rfl⟩
  read := by
    have hreturn : Kept mac "return" := hmac.kept rfl (by decide)
    have hlist : ("return " ++ s ++ ";").toList =
        "return".toList ++ ' ' :: (s.toList ++ [';']) := by
      simp
    rw [hlist, toks_kept hreturn (stop_cons rfl _), toks_space, readStatement.eq_def]
    simp only [if_true, readLast_whole h, Option.map_some]

theorem line_let {x : String} (hx : Kept mac x) (h : Whole l mac s t) :
    Line l mac (l.letLine x l.uintType s) (.define x (localType l) t) where
  plain := by
    cases l <;> simp only [Language.letLine, plain_append]
    · exact ⟨⟨⟨⟨⟨rfl, rfl⟩, hx.plain⟩, rfl⟩, h.plain⟩, rfl⟩
    · exact ⟨⟨⟨⟨⟨rfl, rfl⟩, hx.plain⟩, rfl⟩, h.plain⟩, rfl⟩
    · exact ⟨⟨⟨⟨rfl, hx.plain⟩, rfl⟩, h.plain⟩, rfl⟩
  read := by
    have hfirst : ∀ first : String, Kept mac first →
        toks mac (first ++ " " ++ x ++ " = " ++ s ++ ";").toList =
          .word first :: .word x :: .mark '=' :: toks mac (s.toList ++ [';']) := by
      intro first hfirst
      have hlist : (first ++ " " ++ x ++ " = " ++ s ++ ";").toList =
          first.toList ++ ' ' :: (x.toList ++ ' ' :: '=' :: ' ' :: (s.toList ++ [';'])) := by simp
      rw [hlist, toks_kept hfirst (stop_cons rfl _), toks_space, toks_kept hx (stop_cons rfl _),
        toks_space, toks_mark rfl, toks_space]
    cases l with
    | glsl =>
      rw [Language.letLine, hfirst _ (kept_uintType hmac .glsl), readStatement, if_neg (by decide)]
      simp only [readLocal, hx.1, if_true, readLast_whole h, Option.map_some, localType]
    | hlsl =>
      -- a default value is not read as an expression
      have hne : toks mac (s.toList ++ [';']) ≠
          [.mark '(', .word "uint", .mark ')', .word "0", .mark ';'] := by
        intro heq
        have hlast := readLast_whole h
        rw [heq] at hlast
        cases hlast
      have huint : Language.hlsl.uintType = "uint" := rfl
      rw [Language.letLine, hfirst _ (kept_uintType hmac .hlsl), readStatement, if_neg (by decide)]
      simp only [readLocal, hx.1, if_true, huint, if_neg hne, readLast_whole h, Option.map_some,
        localType]
    | wgsl =>
      have hlet : "let " ++ x ++ " = " ++ s ++ ";" = "let" ++ " " ++ x ++ " = " ++ s ++ ";" := rfl
      have hkept : Kept mac "let" := hmac.kept rfl (by decide)
      rw [Language.letLine, hlet, hfirst _ hkept, readStatement, if_neg (by decide)]
      simp only [readLocal, hx.1, if_true, readLast_whole h, Option.map_some, localType]

omit hmac in
theorem line_declare (hl : l ≠ .wgsl) {x type : String} (hx : Kept mac x) (htype : Kept mac type)
    (hne : type ≠ "return") : Line l mac (type ++ " " ++ x ++ ";") (.declare x type) where
  plain := by
    simp only [plain_append]
    exact ⟨⟨⟨htype.plain, rfl⟩, hx.plain⟩, rfl⟩
  read := by
    have hlist : (type ++ " " ++ x ++ ";").toList = type.toList ++ ' ' :: (x.toList ++ [';']) := by
      simp
    have hend : toks mac [';'] = [.mark ';'] := rfl
    rw [hlist, toks_kept htype (stop_cons rfl _), toks_space, toks_kept hx (stop_cons rfl _), hend,
      readStatement, if_neg hne]
    cases l with
    | glsl | hlsl => simp only [readLocal, hx.1, if_true]
    | wgsl => exact absurd rfl hl

theorem line_var {type : String} (htype : Kept mac type) (hne : type ≠ "return") :
    Line l mac (l.varLine "s" type) (.declare "s" type) := by
  have hs := kept_s hmac
  have hid : Text.isIdentifier "s" = true := rfl
  cases l with
  | glsl =>
    exact line_declare (l := .glsl) nofun hs htype hne
  | hlsl =>
    refine ⟨?_, ?_⟩
    · simp only [Language.varLine, plain_append]
      exact ⟨⟨⟨⟨⟨htype.plain, rfl⟩, rfl⟩, rfl⟩, htype.plain⟩, rfl⟩
    · have hlist : (Language.hlsl.varLine "s" type).toList =
          type.toList ++ ' ' :: ("s".toList ++ ' ' :: '=' :: ' ' :: '(' ::
            (type.toList ++ ')' :: ("0".toList ++ [';']))) := by simp [Language.varLine]
      have hword : IsWord "0" := ⟨List.cons_ne_nil _ _, List.forall_mem_singleton.mpr rfl⟩
      have hzero : mac.lookup "0" = none := hmac.lookup_eq_none rfl
      have hend : toks mac ("0".toList ++ [';']) = [.word "0", .mark ';'] := by
        rw [toks_word hword hzero (stop_cons rfl _)]
        rfl
      rw [hlist, toks_kept htype (stop_cons rfl _), toks_space, toks_kept hs (stop_cons rfl _),
        toks_space, toks_mark rfl, toks_space, toks_mark rfl, toks_kept htype (stop_cons rfl _),
        toks_mark rfl, hend, readStatement, if_neg hne]
      simp only [readLocal, hid, if_true]
  | wgsl =>
    refine ⟨?_, ?_⟩
    · simp only [Language.varLine, plain_append]
      exact ⟨⟨⟨⟨rfl, rfl⟩, rfl⟩, htype.plain⟩, rfl⟩
    · have hvar : Kept mac "var" := hmac.kept rfl (by decide)
      have hlist : (Language.wgsl.varLine "s" type).toList =
          "var".toList ++ ' ' :: ("s".toList ++ ':' :: ' ' :: (type.toList ++ [';'])) := by
        simp [Language.varLine]
      have hend : toks mac [';'] = [.mark ';'] := rfl
      rw [hlist, toks_kept hvar (stop_cons rfl _), toks_space, toks_kept hs (stop_cons rfl _),
        toks_mark rfl, toks_space, toks_kept htype (stop_cons rfl _), hend, readStatement,
        if_neg (by decide)]
      simp only [readLocal, hid, if_true]

end lines

section statements

variable (hmac : Underscored mac)
include hmac

omit hmac in
theorem opening_end {x e e' s : String} (hx : Kept mac (x ++ e)) (he : e' = e ++ "(")
    (hs : s = x ++ e') : Opening l mac s (x ++ e) := by
  rw [hs, he, ← String.append_assoc]
  exact opening_name hx

theorem operand_offset : Operand l mac (l.handleParam ++ ".offset")
    (.member (.name l.handleParam) "offset") := by
  have hoffset : Kept mac "offset" := hmac.kept rfl (by decide)
  have hmember := (operand_name (kept_handleParam hmac l)).member (l := l) hoffset
  rwa [String.append_assoc] at hmember

omit hmac in
theorem operand_makeHandle {name s : String} {t : Term} (hname : Kept mac (l.handleMaker name))
    (h : Whole l mac s t) : Operand l mac (l.makeHandle name s) (handleTerm l name t) :=
  (opening_name hname).arg h

theorem operand_handleAt {name : String} (hname : Kept mac (l.handleMaker name))
    (distance : UInt32) :
    Operand l mac (l.handleAt name distance) (handleTerm l name (distanceTerm l distance)) := by
  apply operand_makeHandle hname
  unfold distanceTerm
  split
  · exact (operand_offset hmac).whole
  · have htext : l.handleParam ++ ".offset + " ++ l.uint distance =
        l.handleParam ++ ".offset" ++ between .add ++ l.uint distance := by
      simp [between, ← String.toList_inj]
    rw [htext]
    exact (operand_offset hmac).binary .add (operand_uint hmac distance)

theorem operand_read {name : String} (hname : Kept mac (l.handleMaker name))
    (hread : Kept mac (name ++ "_read")) (distance : UInt32) :
    Operand l mac (name ++ "_read(" ++ l.handleAt name distance ++ ")")
      (.apply (name ++ "_read") [handleTerm l name (distanceTerm l distance)]) :=
  (opening_end hread rfl rfl).arg (operand_handleAt hmac hname distance).whole

theorem whole_source {source : Source} (h : source.Readable l mac) :
    Whole l mac (l.source source) (sourceTerm l source) := by
  cases source with
  | scalar x => exact (read_expr hmac h).1
  | vector type lanes =>
    obtain ⟨htype, hne, hlanes⟩ := h
    have hargs : List.Forall₂ (Whole l mac) (lanes.map l.expr) (lanes.map (term l)) := by
      rw [List.forall₂_map_left_iff, List.forall₂_map_right_iff, List.forall₂_same]
      exact fun x hx => (read_expr hmac (hlanes x hx)).1
    exact ((opening_typeName hmac htype).args hargs (by simpa using hne)).whole
  | nested name distance => exact (operand_read hmac h.2 h.1 distance).whole
  | handle name x => exact (operand_makeHandle h.1 (read_expr hmac h.2).1).whole

theorem whole_firstWord : Whole l mac l.firstWord (firstTerm l) := by
  have htext : l.firstWord = l.handleParam ++ ".offset" ++ between .shiftRight ++ l.uint 2 := by
    simp [Language.firstWord, between, ← String.toList_inj]
  rw [htext]
  exact (operand_offset hmac).binary .shiftRight (operand_uint hmac 2)

variable {buffer : String} (hb : Kept mac buffer)
include hb

theorem operand_wordAt (i : UInt32) : Operand l mac (l.word buffer i) (wordTerm buffer i) := by
  have hindex := (operand_name (l := l) (kept_ix hmac)).binary .add (operand_uint hmac i)
  have htext : l.word buffer i = buffer ++ "[" ++ ("ix" ++ between .add ++ l.uint i) ++ "]" := by
    simp [Language.word, between, ← String.toList_inj]
  rw [htext]
  exact (operand_name hb).element hindex

theorem operand_tagWord : Operand l mac (l.tagWord buffer) (tagTerm l buffer) :=
  (operand_name hb).element (whole_firstWord hmac)

omit hb in
theorem whole_parts {parts : List Expr} (hne : parts ≠ [])
    (h : ∀ x ∈ parts, x.IsOperand (Kept mac)) :
    Whole l mac (" | ".intercalate (parts.map l.expr)) (orTerm (parts.map (term l))) := by
  have hoperand : ∀ x ∈ parts, Operand l mac (l.expr x) (term l x) :=
    fun x hx => (read_expr hmac (h x hx).2).2 (h x hx).1
  cases parts with
  | nil => exact absurd rfl hne
  | cons x parts =>
    rw [List.forall_mem_cons] at hoperand
    have hrest : List.Forall₂ (Operand l mac) (parts.map l.expr) (parts.map (term l)) := by
      rw [List.forall₂_map_left_iff, List.forall₂_map_right_iff, List.forall₂_same]
      exact hoperand.2
    exact whole_or hoperand.1 hrest

omit hmac in
theorem line_store {i v : String} {t u : Term} (hne : buffer ≠ "return") (hi : Whole l mac i t)
    (hv : Whole l mac v u) :
    Line l mac (buffer ++ "[" ++ i ++ "]" ++ " = " ++ v ++ ";")
      (.assign (.element (.name buffer) t) u) := by
  have htarget := ((operand_name hb).element hi).whole
  have hlist : (buffer ++ "[" ++ i ++ "]" ++ " = " ++ v ++ ";").toList =
      buffer.toList ++ '[' :: (i ++ "]" ++ " = " ++ v ++ ";").toList := by simp
  refine line_of_effect ?_ hb hne rfl hlist (readEffect_assign htarget hv)
  exact plain_append.mpr
    ⟨plain_append.mpr ⟨plain_append.mpr ⟨htarget.plain, rfl⟩, hv.plain⟩, rfl⟩

omit hb in
theorem line_write {name : String} (hwrite : Kept mac (name ++ "_write"))
    (hname : Kept mac (l.handleMaker name)) {a : Argument}
    (ha : ∀ x, a = .member x → Kept mac x) (distance : UInt32) {constant : String → Term} :
    Line l mac (l.stmt buffer (.write name distance a))
      (statement l buffer constant (.write name distance a)) := by
  have hargument : Operand l mac (Language.argument a) (argumentTerm a) := by
    cases a with
    | whole => exact operand_name (kept_s hmac)
    | member x => exact operand_s_member hmac (ha x rfl)
  have hcall := (opening_end hwrite rfl rfl).args
    (.cons (operand_handleAt hmac hname distance).whole (.cons hargument.whole .nil))
    (List.cons_ne_nil _ _)
  have htext : l.stmt buffer (.write name distance a) = name ++ "_write(" ++
      ", ".intercalate [l.handleAt name distance, Language.argument a] ++ ")" ++ ";" := by
    simp [Language.stmt, String.intercalate_cons_cons, ← String.toList_inj]
  have hlist : (l.stmt buffer (.write name distance a)).toList = (name ++ "_write").toList ++
      '(' :: (l.handleAt name distance ++ ", " ++ Language.argument a ++ ");").toList := by
    simp [Language.stmt]
  have hne : name ++ "_write" ≠ "return" := by
    intro heq
    have hmem : '_' ∈ (name ++ "_write").toList := by simp
    rw [heq] at hmem
    exact absurd hmem (by decide)
  refine line_of_effect ?_ hwrite hne rfl hlist ?_
  · rw [htext]
    exact plain_append.mpr ⟨hcall.plain, rfl⟩
  · rw [htext]
    exact readEffect_run hcall.whole

omit hb in
theorem line_stmt {constant : String → Term} {s : Stmt} (h : s.Readable l mac buffer constant) :
    Line l mac (l.stmt buffer s) (statement l buffer constant s) := by
  cases s with
  | base => exact line_let hmac (kept_ix hmac) (whole_firstWord hmac)
  | load w => exact line_let hmac (kept_rawName hmac w) (operand_wordAt hmac h w).whole
  | declare name => exact line_var hmac h.1 h.2
  | assign member source =>
    have htarget := (operand_s_member (l := l) hmac h.1).whole
    have hvalue := whole_source hmac h.2
    have hlist : (l.stmt buffer (.assign member source)).toList =
        "s".toList ++ '.' :: (member ++ " = " ++ l.source source ++ ";").toList := by
      simp [Language.stmt]
    refine line_of_effect ?_ (kept_s hmac) (by decide) rfl hlist (readEffect_assign htarget hvalue)
    exact plain_append.mpr
      ⟨plain_append.mpr ⟨plain_append.mpr ⟨htarget.plain, rfl⟩, hvalue.plain⟩, rfl⟩
  | returnStruct => exact line_return hmac (operand_name (kept_s hmac)).whole
  | store w parts =>
    obtain ⟨hb, hne, hparts, hall⟩ := h
    have htext : l.stmt buffer (.store w parts) =
        buffer ++ "[" ++ ("ix" ++ between .add ++ l.uint w) ++ "]" ++ " = " ++
          " | ".intercalate (parts.map l.expr) ++ ";" := by
      simp [Language.stmt, Language.word, between, ← String.toList_inj]
    rw [htext]
    exact line_store hb hne ((operand_name (kept_ix hmac)).binary .add (operand_uint hmac w))
      (whole_parts hmac hparts hall)
  | write name distance a => exact line_write hmac h.1 h.2.1 h.2.2 distance
  | returnRead name distance =>
    have htext : l.stmt buffer (.returnRead name distance) =
        "return " ++ (name ++ "_read(" ++ l.handleAt name distance ++ ")") ++ ";" := by
      simp [Language.stmt, ← String.toList_inj]
    rw [htext]
    exact line_return hmac (operand_read hmac h.2 h.1 distance).whole
  | returnTag => exact line_return hmac (operand_tagWord hmac h).whole
  | storeTag c => exact line_store h.1 h.2.1 (whole_firstWord hmac) h.2.2.whole
  | returnElement name =>
    have hindex : Kept mac "index" := hmac.kept rfl (by decide)
    have helement := (operand_offset (l := l) hmac).add_mul (operand_name hindex) h.2
    have htext : l.handleParam ++ ".offset + index * " ++ name ++ "_size" =
        l.handleParam ++ ".offset" ++ between .add ++
          ("index" ++ between .mul ++ (name ++ "_size")) := by
      simp [between, ← String.toList_inj]
    rw [Language.stmt, htext]
    exact line_return hmac (operand_makeHandle h.1 helement).whole

end statements

end Listing

end WordLayout.Shader
