import Mathlib
import WordLayout.Proofs.Shader.Hygiene

namespace WordLayout.Shader

open Reserved

namespace Language

def keywords : Language → List String
  | .glsl => glslWords
  | .hlsl => hlslWords
  | .wgsl => wgslKeywords ++ wgslWords

def types : Language → List String
  | .glsl | .wgsl => []
  | .hlsl => hlslBases.flatMap hlslTypes

def words (l : Language) : List String := l.keywords ++ l.types

def KeptForm (l : Language) (x : String) : Prop :=
  match l with
  | .glsl => ['g', 'l', '_'] <+: x.toList ∨ ['_', '_'] <:+: x.toList
  | .hlsl => Text.lower x ∈ hlslFoldedWords ∨ ['S', 'V', '_'] <+: x.toList
  | .wgsl => ['_', '_'] <+: x.toList ∨ x = "_"

def Usable (l : Language) (x : String) : Prop :=
  Text.isIdentifier x = true ∧ l.isReserved x = false

def KeptBefore (l : Language) (x : String) : Prop :=
  match l with
  | .glsl => x = "gl" ∨ ['_'] <:+ x.toList
  | .hlsl => x = "SV"
  | .wgsl => False

def joinedKeywords : Language → List String
  | .glsl => []
  | .hlsl => ["column_major", "row_major", "dynamic_cast", "reinterpret_cast", "thread_local"]
  | .wgsl =>
    ["texture_cube", "texture_cube_array", "texture_multisampled_2d", "texture_storage_1d",
      "texture_storage_2d", "texture_storage_2d_array", "texture_storage_3d", "texture_depth_2d",
      "texture_depth_2d_array", "texture_depth_cube", "texture_depth_cube_array",
      "texture_depth_multisampled_2d", "column_major", "demote_to_helper", "thread_local"]

def unjoinedKeywords : Language → List String
  | .glsl => ["atomic_uint"]
  | .hlsl => ["asm_fragment", "compile_fragment", "const_cast", "static_cast", "static_assert"]
  | .wgsl =>
    ["const_assert", "sampler_comparison", "texture_1d", "texture_2d", "texture_2d_array",
      "texture_3d", "read_write", "asm_fragment", "binding_array", "co_await", "co_return",
      "co_yield", "compile_fragment", "const_cast", "dynamic_cast", "macro_rules",
      "reinterpret_cast", "static_assert", "static_cast"]

def joinedBases : List String :=
  ["int16_t", "int32_t", "int64_t", "uint16_t", "uint32_t", "uint64_t", "float16_t", "float32_t",
    "float64_t"]

/-- The words that two free names with an underscore between them can give. -/
def compounds : Language → List String
  | .glsl => joinedKeywords .glsl
  | .hlsl => joinedKeywords .hlsl ++ joinedBases.flatMap hlslTypes
  | .wgsl => joinedKeywords .wgsl

end Language

theorem hasDoubleUnderscore_iff (cs : List Char) :
    hasDoubleUnderscore cs = true ↔ ['_', '_'] <:+: cs := by
  fun_induction hasDoubleUnderscore cs with
  | case1 cs => simpa using (List.prefix_append ['_', '_'] cs).isInfix
  | case2 c cs hne ih =>
    rw [ih, List.infix_cons_iff, or_iff_right]
    rintro ⟨t, ht⟩
    obtain ⟨rfl, rfl⟩ := List.cons.inj ht
    exact hne _ rfl rfl
  | case3 => simp

theorem startsWith_iff (start s : String) :
    startsWith start s = true ↔ start.toList <+: s.toList :=
  List.isPrefixOf_iff_prefix

theorem isReserved_iff {l : Language} {x : String} :
    l.isReserved x = true ↔ x ∈ l.words ∨ l.KeptForm x := by
  cases l <;>
    simp [Language.isReserved, Language.words, Language.keywords, Language.types, Language.KeptForm,
      startsWith_iff, hasDoubleUnderscore_iff, or_assoc]

section tables

-- What is put after a name that is given: for the handle, and for constants and functions.
def handleEnds : List String := ["Ref", "Ref_new"]

def endWords : List String := ["size", "index", "read", "write", "tag"]

def joinedEnds : List String := endWords.map ("_" ++ ·)

def nameEnds : List String := handleEnds ++ joinedEnds

def splits : List Char → List (List Char × List Char)
  | [] => []
  | c :: cs => (if c = '_' then [([], cs)] else []) ++ (splits cs).map fun p => (c :: p.1, p.2)

theorem mem_splits (xs ys : List Char) : (xs, ys) ∈ splits (xs ++ '_' :: ys) := by
  induction xs with
  | nil => simp [splits]
  | cons x xs ih => exact List.mem_append_right _ (List.mem_map.mpr ⟨_, ih, rfl⟩)

-- The tables are looked through once for underscores, whose byte is 95: what has to be known of all
-- words is then read off the few that have one.
theorem keywords_listed (l : Language) : ∀ w ∈ l.keywords,
    95 ∈ bytes w ∨ bytes "Ref" <:+ bytes w → w ∈ l.joinedKeywords ++ l.unjoinedKeywords := by
  cases l <;> decide +kernel

theorem listed_ends (l : Language) : ∀ w ∈ l.joinedKeywords ++ l.unjoinedKeywords,
    ∀ s ∈ nameEnds, bytes s <:+ bytes w → l = .wgsl ∧ s = "_write" ∧ w = "read_write" := by
  cases l <;> decide

theorem unjoined_splits (l : Language) : ∀ w ∈ l.unjoinedKeywords, ∀ p ∈ splits w.toList,
    ∃ part ∈ [p.1, p.2],
      Text.isIdentifierChars part = false ∨ l.isReserved (String.ofList part) = true := by
  cases l <;> decide +kernel

theorem joined_keywords (l : Language) : ∀ w ∈ l.joinedKeywords, w ∈ l.keywords := by
  cases l <;> decide

theorem hlslTypes_eq (base : String) : hlslTypes base = (hlslTypes "").map (base ++ ·) := by
  simp [hlslTypes, String.append_assoc]

theorem underscore_of_types {base w : String} (hw : w ∈ hlslTypes base) (hu : 95 ∈ bytes w) :
    95 ∈ bytes base := by
  have htails : ∀ t ∈ hlslTypes "", 95 ∉ bytes t := by decide
  rw [hlslTypes_eq] at hw
  obtain ⟨t, ht, rfl⟩ := List.mem_map.mp hw
  rw [bytes_append] at hu
  exact (List.mem_append.mp hu).resolve_right (htails t ht)

theorem types_end {base a s : String} (hbase : base ∈ hlslBases) (hs : s ∈ nameEnds) :
    a ++ s ∉ hlslTypes base := by
  have hbases : ∀ base ∈ hlslBases, ∀ s ∈ nameEnds,
      ¬ (bytes s <:+ bytes base ∨ bytes base <:+ bytes s) := by decide
  have htails : ∀ t ∈ hlslTypes "", t = "" ∨ ∀ s ∈ nameEnds,
      ¬ (bytes s <:+ bytes t ∨ bytes t <:+ bytes s) := by decide
  intro hw
  rw [hlslTypes_eq] at hw
  obtain ⟨t, ht, heq⟩ := List.mem_map.mp hw
  rcases htails t ht with rfl | hnone
  · have hsuffix : a ++ s = "" ++ base := by simpa using heq.symm
    exact hbases base hbase s hs (suffix_of_append_eq hsuffix)
  · exact hnone s hs (suffix_of_append_eq heq.symm)

variable {l : Language} {a b s w : String}

theorem mem_types_iff : w ∈ l.types ↔ l = .hlsl ∧ ∃ base ∈ hlslBases, w ∈ hlslTypes base := by
  cases l <;> simp [Language.types]

theorem mem_compounds_iff :
    w ∈ l.compounds ↔ w ∈ l.joinedKeywords ∨ l = .hlsl ∧ ∃ base ∈ Language.joinedBases,
      w ∈ hlslTypes base := by
  cases l <;> simp [Language.compounds]

theorem word_of_compound (hw : w ∈ l.compounds) : w ∈ l.words := by
  have hbases : ∀ base ∈ Language.joinedBases, base ∈ hlslBases := by decide
  rcases mem_compounds_iff.mp hw with hw | ⟨hl, base, hbase, hw⟩
  · exact List.mem_append_left _ (joined_keywords l w hw)
  · exact List.mem_append_right _ (mem_types_iff.mpr ⟨hl, base, hbases base hbase, hw⟩)

theorem word_end (hs : s ∈ nameEnds) (hw : a ++ s ∈ l.words) :
    l = .wgsl ∧ s = "_write" ∧ a = "read" := by
  have hends : ∀ s ∈ nameEnds, 95 ∈ bytes s ∨ s = "Ref" := by decide
  rcases List.mem_append.mp hw with hw | hw
  · have hsuffix : bytes s <:+ bytes (a ++ s) := by
      rw [bytes_append]
      exact List.suffix_append _ _
    have hlisted := keywords_listed l _ hw <| by
      rcases hends s hs with hu | rfl
      · exact .inl (hsuffix.subset hu)
      · exact .inr hsuffix
    obtain ⟨hl, rfl, heq⟩ := listed_ends l _ hlisted s hs hsuffix
    have hread : a ++ "_write" = "read" ++ "_write" := heq
    exact ⟨hl, rfl, (String.append_left_inj _).mp hread⟩
  · obtain ⟨-, base, hbase, hw⟩ := mem_types_iff.mp hw
    exact absurd hw (types_end hbase hs)

theorem toList_join : (a ++ "_" ++ b).toList = a.toList ++ '_' :: b.toList := by
  simp [String.toList_append]

theorem usable_split (ha : l.Usable a) (hb : l.Usable b) :
    a ++ "_" ++ b ∉ l.unjoinedKeywords := by
  intro hw
  have hsplit := mem_splits a.toList b.toList
  rw [← toList_join] at hsplit
  obtain ⟨part, hpart, hbad⟩ := unjoined_splits l _ hw _ hsplit
  have hfree : ∀ c ∈ [a, b], l.Usable c := by simp [ha, hb]
  obtain ⟨c, hc, rfl⟩ : ∃ c ∈ [a, b], c.toList = part := by simpa [eq_comm] using hpart
  obtain ⟨hid, hres⟩ := hfree c hc
  rcases hbad with hbad | hbad
  · exact absurd (hid.symm.trans hbad) (by decide)
  · rw [String.ofList_toList, hres] at hbad
    cases hbad

theorem mem_compounds_of_word (ha : l.Usable a) (hb : l.Usable b) (hw : a ++ "_" ++ b ∈ l.words) :
    a ++ "_" ++ b ∈ l.compounds := by
  have hu : 95 ∈ bytes (a ++ "_" ++ b) := by
    have hmid : 95 ∈ bytes "_" := by decide
    rw [bytes_append, bytes_append]
    exact List.mem_append_left _ (List.mem_append_right _ hmid)
  have hbases : ∀ base ∈ hlslBases, 95 ∈ bytes base → base ∈ Language.joinedBases := by decide
  rw [mem_compounds_iff]
  rcases List.mem_append.mp hw with hw | hw
  · rcases List.mem_append.mp (keywords_listed l _ hw (.inl hu)) with hw | hw
    · exact .inl hw
    · exact absurd hw (usable_split ha hb)
  · obtain ⟨hl, base, hbase, hw⟩ := mem_types_iff.mp hw
    exact .inr ⟨hl, base, hbases base hbase (underscore_of_types hw hu), hw⟩

end tables

section forms

theorem prefix_append_cons {p xs ys : List Char} {r : Char} (hr : r ∉ p) :
    p <+: xs ++ r :: ys ↔ p <+: xs := by
  induction p generalizing xs with
  | nil => simp
  | cons c p ih =>
    obtain ⟨hc, hp⟩ := not_or.mp (mt List.mem_cons.mpr hr)
    cases xs with
    | nil => simp [Ne.symm hc]
    | cons x xs => simp [ih hp]

theorem prefix_join {c d : Char} (hc : c ≠ '_') (hd : d ≠ '_') {xs ys : List Char} :
    [c, d, '_'] <+: xs ++ '_' :: ys ↔ [c, d, '_'] <+: xs ∨ xs = [c, d] := by
  rcases xs with _ | ⟨x, _ | ⟨y, _ | ⟨z, zs⟩⟩⟩
  · simp [hc]
  · simp [hd]
  · simp [eq_comm]
  · simp

theorem double_append_iff {xs ys : List Char} :
    ['_', '_'] <:+: xs ++ ys ↔
      ['_', '_'] <:+: xs ∨ ['_', '_'] <:+: ys ∨ ['_'] <:+ xs ∧ ['_'] <+: ys := by
  rw [List.infix_append_iff]
  constructor
  · rintro (h | h | ⟨p, q, heq, hp, hq⟩)
    · exact .inl h
    · exact .inr (.inl h)
    · rcases p with _ | ⟨c, _ | ⟨d, p⟩⟩
      · obtain rfl : ['_', '_'] = q := heq
        exact .inr (.inl hq.isInfix)
      · obtain ⟨rfl, rfl⟩ := List.cons.inj heq
        exact .inr (.inr ⟨hp, hq⟩)
      · obtain ⟨rfl, rfl, hnil⟩ : '_' = c ∧ '_' = d ∧ [] = p ++ q := by simpa using heq
        obtain ⟨rfl, rfl⟩ := List.append_eq_nil_iff.mp hnil.symm
        exact .inl hp.isInfix
  · rintro (h | h | ⟨hp, hq⟩)
    · exact .inl h
    · exact .inr (.inl h)
    · exact .inr (.inr ⟨['_'], ['_'], rfl, hp, hq⟩)

theorem double_join_iff {xs ys : List Char} :
    ['_', '_'] <:+: xs ++ '_' :: ys ↔
      ['_', '_'] <:+: xs ∨ ['_'] <:+ xs ∨ ['_'] <+: ys ∨ ['_', '_'] <:+: ys := by
  have hstart : ['_'] <+: '_' :: ys := List.prefix_append ['_'] ys
  rw [double_append_iff, List.infix_cons_iff, List.cons_prefix_cons]
  tauto

theorem lower_append (a b : String) : Text.lower (a ++ b) = Text.lower a ++ Text.lower b := by
  simp [Text.lower]

theorem notMem_foldedWords {a b s : String} (hs : s ∈ ["_", "Ref"]) :
    Text.lower (a ++ s ++ b) ∉ hlslFoldedWords := by
  have hall : ∀ w ∈ hlslFoldedWords, ∀ s ∈ ["_", "Ref"], ¬ bytes (Text.lower s) <:+: bytes w := by
    decide
  intro hw
  refine hall _ hw s hs ?_
  rw [lower_append, lower_append, bytes_append, bytes_append]
  exact List.infix_append _ _ _

variable {l : Language} {a b s : String}

theorem Language.Usable.not_keptForm (ha : l.Usable a) : ¬ l.KeptForm a := by
  intro hk
  have hres := isReserved_iff.mpr (.inr hk)
  rw [ha.2] at hres
  cases hres

theorem Language.Usable.toList_ne_nil (ha : l.Usable a) : a.toList ≠ [] := by
  intro hnil
  have hid := ha.1
  rw [Text.isIdentifier, hnil] at hid
  cases hid

theorem keptForm_join (ha : l.Usable a) :
    l.KeptForm (a ++ "_" ++ b) ↔ l.KeptBefore a ∨
      l = .glsl ∧ (['_'] <+: b.toList ∨ ['_', '_'] <:+: b.toList) := by
  have hnot := ha.not_keptForm
  have hne := ha.toList_ne_nil
  -- Each language has forms of its own; what they share is that the first name does not have them.
  cases l with
  | glsl =>
    obtain ⟨hgl, hdouble⟩ := not_or.mp hnot
    have hname : a.toList = ['g', 'l'] ↔ a = "gl" := @String.toList_inj a "gl"
    simp only [Language.KeptForm, Language.KeptBefore, toList_join, double_join_iff, hname,
      prefix_join (by decide : 'g' ≠ '_') (by decide : 'l' ≠ '_'), hgl, hdouble, false_or,
      true_and, or_assoc]
  | hlsl =>
    obtain ⟨-, hsv⟩ := not_or.mp hnot
    have hname : a.toList = ['S', 'V'] ↔ a = "SV" := @String.toList_inj a "SV"
    have hfold : Text.lower (a ++ "_" ++ b) ∉ hlslFoldedWords := notMem_foldedWords (by decide)
    simp [Language.KeptForm, Language.KeptBefore, hname,
      prefix_join (by decide : 'S' ≠ '_') (by decide : 'V' ≠ '_'), hsv, hfold]
  | wgsl =>
    obtain ⟨hdouble, hone⟩ := not_or.mp hnot
    rw [← @String.toList_inj a "_"] at hone
    have hform : ¬ Language.wgsl.KeptForm (a ++ "_" ++ b) := by
      rw [Language.KeptForm, ← @String.toList_inj _ "_", toList_join]
      rcases hcs : a.toList with _ | ⟨c, _ | ⟨d, cs⟩⟩
      · exact absurd hcs hne
      · have hc : '_' ≠ c := by
          rintro rfl
          exact hone hcs
        simp [hc]
      · rw [hcs] at hdouble
        simpa using hdouble
    simp [hform, Language.KeptBefore]

theorem not_keptForm_handle (ha : l.Usable a) (hs : s ∈ handleEnds) : ¬ l.KeptForm (a ++ s) := by
  have hnot := ha.not_keptForm
  obtain ⟨b, rfl, hb⟩ : ∃ b, s = "Ref" ++ b ∧ ¬ ['_', '_'] <:+: 'R' :: 'e' :: 'f' :: b.toList := by
    rcases List.mem_cons.mp hs with rfl | hs
    · exact ⟨"", rfl, by decide⟩
    · obtain rfl := List.mem_singleton.mp hs
      exact ⟨"_new", rfl, by decide⟩
  have hlist : (a ++ ("Ref" ++ b)).toList = a.toList ++ 'R' :: ('e' :: 'f' :: b.toList) := by
    simp [String.toList_append]
  cases l with
  | glsl =>
    simp only [Language.KeptForm, hlist] at hnot ⊢
    have hstart : ¬ ['_'] <+: 'R' :: 'e' :: 'f' :: b.toList := by simp
    rw [prefix_append_cons (by decide), double_append_iff]
    obtain ⟨hgl, hdouble⟩ := not_or.mp hnot
    simp only [hgl, hdouble, hb, hstart, and_false, or_false, not_false_eq_true]
  | hlsl =>
    have hfold : Text.lower (a ++ "Ref" ++ b) ∉ hlslFoldedWords := notMem_foldedWords (by decide)
    rw [String.append_assoc] at hfold
    simp only [Language.KeptForm, hlist] at hnot ⊢
    rw [prefix_append_cons (by decide)]
    exact not_or.mpr ⟨hfold, (not_or.mp hnot).2⟩
  | wgsl =>
    have hlong : a.toList ++ 'R' :: 'e' :: 'f' :: b.toList ≠ "_".toList := by
      intro heq
      have hlen := congrArg List.length heq
      simp at hlen
      omega
    simp only [Language.KeptForm, hlist, ← @String.toList_inj _ "_"] at hnot ⊢
    rw [prefix_append_cons (by decide)]
    exact not_or.mpr ⟨(not_or.mp hnot).1, hlong⟩

end forms

section names

variable {l : Language}

theorem usable_of_checkName {role : Role} {name type variant : String}
    (h : checkName l role name type variant = .ok ()) : l.Usable name := by
  unfold checkName at h
  split at h
  · cases h
  · split at h
    · cases h
    · rename_i hid hres
      exact ⟨by simpa using hid, by simpa using hres⟩

theorem usable_of_checked {d : TypeDef} (h : checkGivenNames l d = .ok ()) :
    l.Usable d.name ∧
      ∀ variants, d.body = .union variants → ∀ v ∈ variants, l.Usable v.name := by
  obtain ⟨⟨⟩, hname, hmembers⟩ := bind_eq_ok_iff.mp h
  refine ⟨usable_of_checkName hname, fun variants hb => ?_⟩
  rw [hb] at hmembers
  exact fun v hv => usable_of_checkName (forM_eq_ok_iff.mp hmembers v hv)

theorem not_reserved_handle {a s : String} (ha : l.Usable a) (hs : s ∈ handleEnds) :
    l.isReserved (a ++ s) = false := by
  have hends : ∀ s ∈ handleEnds, s ∈ nameEnds ∧ s ≠ "_write" := by decide
  rw [Bool.eq_false_iff]
  intro hres
  rcases isReserved_iff.mp hres with hw | hk
  · exact (hends s hs).2 (word_end (hends s hs).1 hw).2.1
  · exact not_keptForm_handle ha hs hk

theorem endWords_plain : ∀ b ∈ endWords, ¬ ['_'] <+: b.toList ∧ ¬ ['_', '_'] <:+: b.toList := by
  decide

theorem mem_nameEnds {s : String} (hs : s ∈ joinedEnds) : s ∈ nameEnds :=
  List.mem_append_right _ hs

theorem reserved_end_iff {a s : String} (ha : l.Usable a) (hs : s ∈ joinedEnds) :
    l.isReserved (a ++ s) = true ↔ l.KeptBefore a := by
  have hread : ¬ Language.wgsl.Usable "read" := fun h => absurd h.2 (by decide)
  have hword : a ++ s ∉ l.words := by
    intro hw
    obtain ⟨rfl, -, rfl⟩ := word_end (mem_nameEnds hs) hw
    exact hread ha
  rw [isReserved_iff, or_iff_right hword]
  obtain ⟨b, hb, rfl⟩ := List.mem_map.mp hs
  obtain ⟨hstart, hdouble⟩ := endWords_plain b hb
  rw [← String.append_assoc, keptForm_join ha]
  simp [hstart, hdouble]

section variants

variable {d : TypeDef} {v : Variant} (hd : l.Usable d.name) (hv : l.Usable v.name)
include hd hv

theorem reserved_tag_iff :
    l.isReserved (tagName d v) = true ↔ l.KeptBefore d.name ∨ tagName d v ∈ l.compounds ∨
      l = .glsl ∧ ['_'] <+: v.name.toList := by
  have hword : tagName d v ∈ l.words ↔ tagName d v ∈ l.compounds :=
    ⟨mem_compounds_of_word hd hv, word_of_compound⟩
  have hdouble : ¬ (l = .glsl ∧ ['_', '_'] <:+: v.name.toList) := by
    rintro ⟨rfl, h⟩
    exact hv.not_keptForm (.inr h)
  rw [isReserved_iff, hword, tagName, keptForm_join hd, and_or_left, or_iff_left hdouble,
    or_left_comm]

theorem reserved_variant_iff {s : String} (hs : s ∈ joinedEnds) :
    l.isReserved (tagName d v ++ s) = true ↔ l.KeptBefore d.name ∨
      l = .glsl ∧ (['_'] <+: v.name.toList ∨ ['_'] <:+ v.name.toList) := by
  have hword : tagName d v ++ s ∉ l.words := by
    intro hw
    obtain ⟨-, -, heq⟩ := word_end (mem_nameEnds hs) hw
    have hu : '_' ∈ (tagName d v).toList := by simp [tagName]
    rw [heq] at hu
    exact absurd hu (by decide)
  obtain ⟨b, hb, rfl⟩ := List.mem_map.mp hs
  obtain ⟨hstart, hdouble⟩ := endWords_plain b hb
  -- Read from the left, the second underscore belongs to what follows the first.
  have hjoin : tagName d v ++ ("_" ++ b) = d.name ++ "_" ++ (v.name ++ "_" ++ b) := by
    simp [tagName, String.append_assoc]
  have hfirst : ['_'] <+: v.name.toList ++ '_' :: b.toList ↔ ['_'] <+: v.name.toList := by
    obtain ⟨c, cs, hcs⟩ := List.exists_cons_of_ne_nil hv.toList_ne_nil
    simp [hcs]
  have hsecond : l = .glsl → (['_', '_'] <:+: v.name.toList ++ '_' :: b.toList ↔
      ['_'] <:+ v.name.toList) := by
    rintro rfl
    have hfree := (not_or.mp hv.not_keptForm).2
    simp [double_join_iff, hfree, hstart, hdouble]
  rw [isReserved_iff, or_iff_right hword, hjoin, keptForm_join hd, toList_join, hfirst]
  exact or_congr_right (and_congr_right fun hl => or_congr_right (hsecond hl))

end variants

def HasAccessor (m : Module) (v : Variant) : Prop :=
  (∃ offset t, v.payload = .struct offset t) ∨ v.payload = .empty ∧ m.writable = true

/-- Some name that is put together for the definition is kept by the language: an underscore
completes a form that it keeps, or a tag is one of its words. -/
def Language.KeepsNameOf (l : Language) (m : Module) (d : TypeDef) : Prop :=
  l.KeptBefore d.name ∨ ∃ variants, d.body = .union variants ∧ ∃ v ∈ variants,
    tagName d v ∈ l.compounds ∨ l = .glsl ∧
      (['_'] <+: v.name.toList ∨ ['_'] <:+ v.name.toList ∧ HasAccessor m v)

variable {m : Module} {d : TypeDef} {x : String}

theorem keepsNameOf_of_emitted (hchecked : checkGivenNames l d = .ok ())
    (he : EmittedName m l d x) (hres : l.isReserved x = true) : l.KeepsNameOf m d := by
  obtain ⟨hd, hvariants⟩ := usable_of_checked hchecked
  have hend : ∀ s ∈ joinedEnds, x = d.name ++ s → l.KeepsNameOf m d := by
    rintro s hs rfl
    exact .inl ((reserved_end_iff hd hs).mp hres)
  have haccessor : ∀ s ∈ joinedEnds, ∀ variants, d.body = .union variants → ∀ v ∈ variants,
      HasAccessor m v → x = tagName d v ++ s → l.KeepsNameOf m d := by
    rintro s hs variants hb v hv hacc rfl
    rcases (reserved_variant_iff hd (hvariants _ hb v hv) hs).mp hres with h | ⟨hl, h | h⟩
    · exact .inl h
    · exact .inr ⟨variants, hb, v, hv, .inr ⟨hl, .inl h⟩⟩
    · exact .inr ⟨variants, hb, v, hv, .inr ⟨hl, .inr ⟨h, hacc⟩⟩⟩
  cases he with
  | handle => simp [not_reserved_handle hd (by decide : "Ref" ∈ handleEnds)] at hres
  | maker => simp [not_reserved_handle hd (by decide : "Ref_new" ∈ handleEnds)] at hres
  | struct => simp [hd.2] at hres
  | size => exact hend "_size" (by decide) rfl
  | index => exact hend "_index" (by decide) rfl
  | read => exact hend "_read" (by decide) rfl
  | write => exact hend "_write" (by decide) rfl
  | tag => exact hend "_tag" (by decide) rfl
  | constant hb hv =>
    rcases (reserved_tag_iff hd (hvariants _ hb _ hv)).mp hres with h | h | ⟨hl, h⟩
    · exact .inl h
    · exact .inr ⟨_, hb, _, hv, .inl h⟩
    · exact .inr ⟨_, hb, _, hv, .inr ⟨hl, .inl h⟩⟩
  | variantRead hb hv hp =>
    exact haccessor "_read" (by decide) _ hb _ hv (.inl ⟨_, _, hp⟩) rfl
  | variantWrite hb hv hwr hp =>
    have hacc : HasAccessor m _ := hp.elim (fun hp => .inr ⟨hp, hwr⟩) .inl
    exact haccessor "_write" (by decide) _ hb _ hv hacc rfl

theorem emitted_of_keepsNameOf (hchecked : checkGivenNames l d = .ok ())
    (hk : l.KeepsNameOf m d) : ∃ x, EmittedName m l d x ∧ l.isReserved x = true := by
  obtain ⟨hd, hvariants⟩ := usable_of_checked hchecked
  rcases hk with h | ⟨variants, hb, v, hv, h⟩
  · exact ⟨_, .size, (reserved_end_iff hd (by decide)).mpr h⟩
  · have hname := hvariants _ hb v hv
    rcases h with h | ⟨hl, h | ⟨h, hacc⟩⟩
    · exact ⟨_, .constant hb hv, (reserved_tag_iff hd hname).mpr (.inr (.inl h))⟩
    · exact ⟨_, .constant hb hv, (reserved_tag_iff hd hname).mpr (.inr (.inr ⟨hl, h⟩))⟩
    · have hres : ∀ s ∈ joinedEnds, l.isReserved (tagName d v ++ s) = true :=
        fun s hs => (reserved_variant_iff hd hname hs).mpr (.inr ⟨hl, .inr h⟩)
      rcases hacc with ⟨offset, t, hp⟩ | ⟨hp, hwr⟩
      · exact ⟨_, .variantRead hb hv hp, hres "_read" (by decide)⟩
      · exact ⟨_, .variantWrite hb hv hwr (.inl hp), hres "_write" (by decide)⟩

end names

/-- A name that is declared for a definition is reserved in no other cases than those of
`KeepsNameOf`; the names of the buffer, of structs and of handles never are. -/
theorem reserved_names_iff {m : Module} {l : Language} {o : Options} {out : Output}
    (he : emit m l o = .ok out) :
    ((∃ x ∈ out.program.items.flatMap l.definitionNames, l.isReserved x = true) ↔
      ∃ d ∈ m.defs, l.KeepsNameOf m d) ∧
    l.isReserved (bufferName m o) = false ∧
    ∀ d ∈ m.defs, ∀ s ∈ "" :: handleEnds, l.isReserved (d.name ++ s) = false := by
  obtain ⟨-, ⟨used, hused⟩, hprog, -⟩ := emit_eq_ok he
  have ha := accepted_of_claimNames hused
  rw [hprog]
  refine ⟨⟨?_, ?_⟩, (usable_of_checkName ha.buffer_checked).2, fun d hd s hs => ?_⟩
  · rintro ⟨x, hx, hres⟩
    obtain ⟨d, hd, hx⟩ := mem_names_iff.mp hx
    exact ⟨d, hd, keepsNameOf_of_emitted (ha.checked d hd) hx hres⟩
  · rintro ⟨d, hd, hk⟩
    obtain ⟨x, hx, hres⟩ := emitted_of_keepsNameOf (ha.checked d hd) hk
    exact ⟨x, mem_names_iff.mpr ⟨d, hd, hx⟩, hres⟩
  · have hname := (usable_of_checked (ha.checked d hd)).1
    rcases List.mem_cons.mp hs with rfl | hs
    · simpa using hname.2
    · exact not_reserved_handle hname hs

def columnType : TypeDef := { name := "column", size := 4, body := .union [⟨"major", .empty⟩] }

def joinedModule : Module :=
  { name := "mem", writable := false, defs := [wordType "P_" "x", columnType] }

theorem emit_joined {l : Language} (hl : l ≠ .wgsl) : ∃ out, emit joinedModule l {} = .ok out := by
  cases l with
  | glsl => exact emit_ok (by cbv) (by decide) rfl
  | hlsl => exact emit_ok (by cbv) (by decide +kernel) rfl
  | wgsl => exact absurd rfl hl

theorem reserved_names_column :
    ∃ out, emit joinedModule .hlsl {} = .ok out ∧
      (∃ x ∈ out.program.items.flatMap Language.hlsl.definitionNames,
        Language.hlsl.isReserved x = true) ∧
      Language.hlsl.isReserved "mem" = false ∧ Language.hlsl.isReserved "P_Ref_new" = false := by
  obtain ⟨out, hout⟩ := emit_joined (l := .hlsl) (by decide)
  obtain ⟨hiff, hbuffer, hnames⟩ := reserved_names_iff hout
  have hcompound : "column_major" ∈ Language.hlsl.compounds := List.mem_cons_self
  have hkept : Language.hlsl.KeepsNameOf joinedModule columnType :=
    .inr ⟨_, rfl, _, List.mem_singleton_self _, .inl hcompound⟩
  refine ⟨out, hout, hiff.mpr ⟨columnType, ?_, hkept⟩, hbuffer, ?_⟩
  · exact List.mem_cons_of_mem _ (List.mem_singleton_self _)
  · exact hnames (wordType "P_" "x") List.mem_cons_self "Ref_new" (by decide)

theorem size_name_reserved :
    ¬ ∀ (m : Module) (l : Language) (o : Options) (out : Output), emit m l o = .ok out →
      ∀ x ∈ out.program.items.flatMap l.definitionNames, l.isReserved x = false := by
  intro h
  obtain ⟨out, hout⟩ := emit_joined (l := .glsl) (by decide)
  have hres : Language.glsl.isReserved "P__size" = true := by decide
  have hfree := h _ _ _ out hout "P__size" <| by
    rw [(emit_eq_ok hout).2.2.1]
    exact mem_names_of_emitted (d := wordType "P_" "x") List.mem_cons_self .size
  rw [hres] at hfree
  cases hfree

end WordLayout.Shader
