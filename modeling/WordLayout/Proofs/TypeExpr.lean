import Mathlib
import WordLayout.Description.TypeParser
import WordLayout.Proofs.Sequence

/-!
The grammar of type expressions. Reading accepts exactly its spellings, with white space around
them, and gives the type that is spelled. What is printed is a spelling of what was printed.
-/

namespace WordLayout

namespace ScalarKind

theorem isKnown_of_ofName? {s : String} {k : ScalarKind} (h : ofName? s = some k) :
    k.isKnown = true := by
  have hall : ∀ k ∈ all, k.isKnown = true := by decide
  exact hall k (List.mem_of_find?_eq_some h)

theorem ofName?_eq_some_iff {s : String} {k : ScalarKind} :
    ofName? s = some k ↔ k.isKnown = true ∧ s = k.name := by
  constructor
  · intro h
    have hname : k.name = s := by simpa using List.find?_some h
    exact ⟨isKnown_of_ofName? h, hname.symm⟩
  · rintro ⟨hk, rfl⟩
    exact ofName?_name hk

theorem ofName?_eq_none_iff {s : String} :
    ofName? s = none ↔ ∀ k : ScalarKind, k.isKnown = true → s ≠ k.name := by
  rw [Option.eq_none_iff_forall_ne_some]
  constructor
  · intro h k hk hs
    exact h k (ofName?_eq_some_iff.mpr ⟨hk, hs⟩)
  · intro h k hs
    obtain ⟨hk, hname⟩ := ofName?_eq_some_iff.mp hs
    exact h k hk hname

end ScalarKind

namespace Text

def Padded (inner cs : List Char) : Prop :=
  ∃ before after, (∀ c ∈ before, isBlank c = true) ∧ (∀ c ∈ after, isBlank c = true) ∧
    cs = before ++ inner ++ after

def Trimmed (cs : List Char) : Prop :=
  (∀ c ∈ cs.head?, isBlank c = false) ∧ ∀ c ∈ cs.getLast?, isBlank c = false

theorem Padded.refl (cs : List Char) : Padded cs cs := ⟨[], [], by simp, by simp, by simp⟩

theorem trimmed_of_ends {c d : Char} {cs : List Char} (hc : isBlank c = false)
    (hd : isBlank d = false) : Trimmed (c :: cs ++ [d]) := by
  constructor
  · rintro _ ⟨⟩
    exact hc
  · rw [List.getLast?_concat]
    rintro _ ⟨⟩
    exact hd

theorem dropWhile_blanks {before xs : List Char} (hbefore : ∀ c ∈ before, isBlank c = true)
    (hxs : ∀ c ∈ xs.head?, isBlank c = false) : (before ++ xs).dropWhile isBlank = xs := by
  rw [List.dropWhile_append_of_pos hbefore]
  cases xs with
  | nil => rfl
  | cons c cs => exact List.dropWhile_cons_of_neg (by simp [hxs c rfl])

theorem trimChars_of_padded {xs cs : List Char} (hxs : Trimmed xs) (h : Padded xs cs) :
    trimChars cs = xs := by
  obtain ⟨before, after, hbefore, hafter, rfl⟩ := h
  rw [trimChars, List.append_assoc]
  by_cases he : xs = []
  · have hall : ∀ c ∈ before ++ (xs ++ after), isBlank c = true := by
      simpa [he, or_imp, forall_and] using And.intro hbefore hafter
    rw [List.dropWhile_eq_nil_iff.mpr hall, he]
    rfl
  · have hhead : ∀ c ∈ (xs ++ after).head?, isBlank c = false := by
      rw [List.head?_append_of_ne_nil _ he]
      exact hxs.1
    have hlast : ∀ c ∈ xs.reverse.head?, isBlank c = false := by
      rw [List.head?_reverse]
      exact hxs.2
    rw [dropWhile_blanks hbefore hhead, List.reverse_append,
      dropWhile_blanks (by simpa using hafter) hlast, List.reverse_reverse]

theorem exists_blanks (cs : List Char) :
    ∃ before, (∀ c ∈ before, isBlank c = true) ∧ cs = before ++ cs.dropWhile isBlank ∧
      ∀ c ∈ (cs.dropWhile isBlank).head?, isBlank c = false := by
  refine ⟨cs.takeWhile isBlank, ?_, List.takeWhile_append_dropWhile.symm, ?_⟩
  · intro c hc
    exact List.mem_takeWhile_imp hc
  · intro c hc
    have hnot := List.head?_dropWhile_not isBlank cs
    rwa [hc] at hnot

theorem padded_trimChars (cs : List Char) :
    Padded (trimChars cs) cs ∧ Trimmed (trimChars cs) := by
  obtain ⟨before, hbefore, hcs, hhead⟩ := exists_blanks cs
  obtain ⟨after, hafter, hrev, hlast⟩ := exists_blanks (cs.dropWhile isBlank).reverse
  have hdrop : cs.dropWhile isBlank = trimChars cs ++ after.reverse := by
    rw [trimChars, ← List.reverse_append, ← hrev, List.reverse_reverse]
  refine ⟨⟨before, after.reverse, hbefore, by simpa using hafter, ?_⟩, ?_, ?_⟩
  · rw [List.append_assoc, ← hdrop]
    exact hcs
  · by_cases he : trimChars cs = []
    · simp [he]
    · rw [hdrop, List.head?_append_of_ne_nil _ he] at hhead
      exact hhead
  · rw [trimChars, List.getLast?_reverse]
    exact hlast

theorem trimChars_eq_iff {cs xs : List Char} : trimChars cs = xs ↔ Padded xs cs ∧ Trimmed xs := by
  constructor
  · rintro rfl
    exact padded_trimChars cs
  · rintro ⟨hpad, htrim⟩
    exact trimChars_of_padded htrim hpad

def Identifier (cs : List Char) : Prop :=
  ∃ c ds, cs = c :: ds ∧ (c = '_' ∨ c.isAlpha = true) ∧ ∀ d ∈ ds, d = '_' ∨ d.isAlphanum = true

theorem isIdentifierStart_iff (c : Char) :
    isIdentifierStart c = true ↔ c = '_' ∨ c.isAlpha = true := by
  simp only [isIdentifierStart, Char.isAlpha, Char.isUpper, Char.isLower, Char.le_def,
    Bool.or_eq_true, Bool.and_eq_true, beq_iff_eq, decide_eq_true_eq]
  tauto

theorem isIdentifierPart_iff (c : Char) :
    (isIdentifierStart c || isAsciiDigit c) = true ↔ c = '_' ∨ c.isAlphanum = true := by
  rw [Bool.or_eq_true, isIdentifierStart_iff, Char.isAlphanum, Bool.or_eq_true, or_assoc]
  simp [isAsciiDigit, Char.isDigit, Char.le_def]

theorem isIdentifierChars_iff {cs : List Char} : isIdentifierChars cs = true ↔ Identifier cs := by
  cases cs with
  | nil => simp [isIdentifierChars, Identifier]
  | cons c ds =>
    simp only [isIdentifierChars, Identifier, Bool.and_eq_true, List.all_eq_true,
      isIdentifierStart_iff, isIdentifierPart_iff, List.cons.injEq]
    constructor
    · rintro ⟨hc, hds⟩
      exact ⟨c, ds, ⟨rfl, rfl⟩, hc, hds⟩
    · rintro ⟨_, _, ⟨rfl, rfl⟩, hc, hds⟩
      exact ⟨hc, hds⟩

theorem toNat_of_alphanum {c : Char} (h : c.isAlphanum = true) :
    (48 ≤ c.toNat ∧ c.toNat ≤ 57) ∨ (65 ≤ c.toNat ∧ c.toNat ≤ 90) ∨
      (97 ≤ c.toNat ∧ c.toNat ≤ 122) := by
  simp only [Char.isAlphanum, Char.isAlpha, Char.isUpper, Char.isLower, Char.isDigit,
    Bool.or_eq_true, Bool.and_eq_true, decide_eq_true_eq, ge_iff_le, UInt32.le_iff_toNat_le] at h
  change ((65 ≤ c.toNat ∧ c.toNat ≤ 90) ∨ (97 ≤ c.toNat ∧ c.toNat ≤ 122)) ∨
    (48 ≤ c.toNat ∧ c.toNat ≤ 57) at h
  tauto

theorem isBlank_of_alphanum {c : Char} (h : c.isAlphanum = true) : isBlank c = false := by
  have hrange := toNat_of_alphanum h
  simp only [isBlank, Bool.or_eq_false_iff, Bool.and_eq_false_iff, decide_eq_false_iff_not,
    beq_eq_false_iff_ne]
  omega

theorem Identifier.chars {cs : List Char} (h : Identifier cs) :
    ∀ c ∈ cs, c = '_' ∨ c.isAlphanum = true := by
  obtain ⟨c, ds, rfl, hc, hds⟩ := h
  rw [List.forall_mem_cons]
  refine ⟨hc.imp_right fun hletter => ?_, hds⟩
  rw [Char.isAlphanum, hletter, Bool.true_or]

theorem Identifier.trimmed {cs : List Char} (h : Identifier cs) : Trimmed cs := by
  have hall : ∀ c ∈ cs, isBlank c = false := by
    intro c hc
    rcases h.chars c hc with rfl | hpart
    · decide
    · exact isBlank_of_alphanum hpart
  exact ⟨fun c hc => hall c (List.mem_of_head? hc), fun c hc => hall c (List.mem_of_getLast? hc)⟩

theorem Identifier.notMem {cs : List Char} (h : Identifier cs) {c : Char}
    (hc : ¬ (c = '_' ∨ c.isAlphanum = true)) : c ∉ cs := fun hmem => hc (h.chars c hmem)

theorem Identifier.isEmpty {cs : List Char} (h : Identifier cs) : cs.isEmpty = false := by
  obtain ⟨c, ds, rfl, -⟩ := h
  rfl

theorem digitValue?_eq_some_iff {c : Char} {d : Nat} (hd : d < 10) :
    digitValue? c = some d ↔ c = Nat.digitChar d := by
  have hdigit : isAsciiDigit c = true ↔ 48 ≤ c.toNat ∧ c.toNat ≤ 57 := by
    simp only [isAsciiDigit, Char.le_def, UInt32.le_iff_toNat_le, Bool.and_eq_true,
      decide_eq_true_eq]
    exact Iff.rfl
  rw [← Char.toNat_inj, Nat.toNat_digitChar_of_lt_ten hd, digitValue?]
  by_cases hc : isAsciiDigit c = true
  · rw [if_pos hc, Option.some_inj]
    rw [hdigit] at hc
    omega
  · rw [if_neg hc]
    rw [hdigit] at hc
    -- Letters are digits of larger bases, from ten on.
    simp only [Char.le_def, UInt32.le_iff_toNat_le, Bool.and_eq_true, decide_eq_true_eq]
    change (if 97 ≤ c.toNat ∧ c.toNat ≤ 122 then _ else
      if 65 ≤ c.toNat ∧ c.toNat ≤ 90 then _ else _) = _ ↔ _
    split_ifs <;> simp <;> omega

theorem readDigits_concat {limit n : Nat} {ds : List Char} {c : Char} :
    readDigits 10 limit (ds ++ [c]) = .ok n ↔
      ∃ m, readDigits 10 limit ds = .ok m ∧
        ∃ d, digitValue? c = some d ∧ d < 10 ∧ m * 10 + d ≤ limit ∧ n = m * 10 + d := by
  rw [readDigits, List.foldlM_append, bind_eq_ok_iff]
  apply exists_congr
  intro m
  apply and_congr_right'
  rw [List.foldlM_cons]
  simp only [List.foldlM_nil, pure_eq_ok]
  cases digitValue? c with
  | none => simp [Bind.bind, Except.bind]
  | some d =>
    by_cases hd : 10 ≤ d
    · simp [Bind.bind, Except.bind, hd, Nat.not_lt.mpr hd]
    · by_cases hl : limit < m * 10 + d
      · simp [Bind.bind, Except.bind, hd, hl, Nat.not_le.mpr hl]
      · simp [hd, hl, Nat.not_le.mp hd, Nat.not_lt.mp hl, eq_comm]

theorem readDigits_eq_zero_iff {limit : Nat} {ds : List Char} :
    readDigits 10 limit ds = .ok 0 ↔ ∀ c ∈ ds, c = '0' := by
  induction ds using List.reverseRecOn with
  | nil => simp [readDigits]
  | append_singleton ds c ih =>
    rw [readDigits_concat, List.forall_mem_append, ← ih, List.forall_mem_singleton]
    constructor
    · rintro ⟨m, hm, d, hd, hlt, -, hzero⟩
      obtain ⟨rfl, rfl⟩ : m = 0 ∧ d = 0 := by omega
      exact ⟨hm, (digitValue?_eq_some_iff hlt).mp hd⟩
    · rintro ⟨hds, rfl⟩
      exact ⟨0, hds, 0, rfl, by omega, by omega, rfl⟩

theorem readDigits_eq_digit_iff {limit n : Nat} (hpos : 0 < n) (hn : n < 10) (hlimit : n ≤ limit)
    {ds : List Char} : readDigits 10 limit ds = .ok n ↔
      ∃ zeros, (∀ c ∈ zeros, c = '0') ∧ ds = zeros ++ (toString n).toList := by
  rw [Nat.toString_eq_repr, Nat.toList_repr, Nat.toDigits_of_lt_base hn]
  constructor
  · intro h
    rcases List.eq_nil_or_concat ds with rfl | ⟨zeros, c, rfl⟩
    · obtain rfl : 0 = n := Except.ok.inj h
      omega
    · rw [List.concat_eq_append, readDigits_concat] at h
      obtain ⟨m, hm, d, hd, hlt, -, hnum⟩ := h
      obtain ⟨rfl, rfl⟩ : m = 0 ∧ n = d := by omega
      refine ⟨zeros, readDigits_eq_zero_iff.mp hm, ?_⟩
      rw [List.concat_eq_append, (digitValue?_eq_some_iff hlt).mp hd]
  · rintro ⟨zeros, hzeros, rfl⟩
    rw [readDigits_concat]
    exact ⟨0, readDigits_eq_zero_iff.mpr hzeros, n, (digitValue?_eq_some_iff hn).mpr rfl, hn,
      by omega, by omega⟩

end Text

namespace TypeExpr

def LaneDigit (digits : List Char) (lanes : UInt8) : Prop :=
  1 ≤ lanes.toNat ∧ lanes.toNat ≤ 4 ∧ digits = (toString lanes.toNat).toList

def LaneNumeral (digits : List Char) (lanes : UInt8) : Prop :=
  ∃ zeros rest, (∀ c ∈ zeros, c = '0') ∧ LaneDigit rest lanes ∧ digits = zeros ++ rest

def NoVector (name : List Char) : Prop := ¬ "vec".toList <+: name

/-- The spellings of type expressions: `count` says which digits stand for a number of lanes, `free`
which names stand alone. White space counts only between the brackets. -/
inductive Spelling (count : List Char → UInt8 → Prop) (free : List Char → Prop) :
    TypeExpr → List Char → Prop
  | scalar {k : ScalarKind} (hk : k.isKnown = true) : Spelling count free (.scalar k) k.name.toList
  | vector {k : ScalarKind} {lanes : UInt8} {digits inner : List Char} (hk : k.isKnown = true)
      (hlanes : count digits lanes) (hinner : Text.Padded k.name.toList inner) :
      Spelling count free (.vector k lanes) ("vec".toList ++ digits ++ '<' :: inner ++ ['>'])
  | ref {name : String} {inner : List Char} (hname : Text.Identifier name.toList)
      (hinner : Text.Padded name.toList inner) :
      Spelling count free (.ref name) ("ref".toList ++ '<' :: inner ++ ['>'])
  | inline {name : String} (hname : Text.Identifier name.toList)
      (hscalar : ∀ k : ScalarKind, k.isKnown = true → name ≠ k.name) (hfree : free name.toList) :
      Spelling count free (.inline name) name.toList

theorem after?_eq_some_iff {start cs rest : List Char} :
    after? start cs = some rest ↔ cs = start ++ rest := by
  unfold after?
  by_cases h : start.isPrefixOf cs = true
  · obtain ⟨tail, rfl⟩ := List.isPrefixOf_iff_prefix.mp h
    simp
  · rw [if_neg h]
    simp only [reduceCtorEq, false_iff]
    rintro rfl
    exact h (List.isPrefixOf_iff_prefix.mpr (List.prefix_append start rest))

theorem bracketed?_eq_some_iff {cs name : List Char} :
    bracketed? cs = some name ↔
      Text.Trimmed name ∧ ∃ inner, Text.Padded name inner ∧ cs = inner ++ ['>'] := by
  rcases List.eq_nil_or_concat cs with rfl | ⟨inner, c, rfl⟩
  · simp [bracketed?]
  · rw [List.concat_eq_append]
    by_cases hc : c = '>'
    · subst hc
      simp only [bracketed?, List.getLast?_append, List.getLast?_singleton, Option.some_or,
        List.dropLast_concat, Option.some_inj, Text.trimChars_eq_iff, List.append_cancel_right_eq,
        exists_eq_right']
      exact and_comm
    · simp [bracketed?, hc]

theorem laneCount?_eq_some_iff {digits : List Char} {lanes : UInt8} :
    laneCount? digits = some lanes ↔ LaneNumeral digits lanes := by
  have hread : ∀ n, 1 ≤ n → n ≤ 4 → (Text.readDigits 10 255 digits = .ok n ↔
      ∃ zeros, (∀ c ∈ zeros, c = '0') ∧ digits = zeros ++ (toString n).toList) := by
    intro n h1 h4
    exact Text.readDigits_eq_digit_iff (by omega) (by omega) (by omega)
  unfold laneCount? LaneNumeral LaneDigit
  constructor
  · intro h
    split_ifs at h
    split at h
    · rename_i n hn
      obtain ⟨⟨h1, h4⟩, hlanes⟩ := Option.ite_none_right_eq_some.mp h
      obtain rfl := Option.some.inj hlanes
      rw [UInt8.toNat_ofNat_of_lt' (by change n < 256; omega)]
      obtain ⟨zeros, hzeros, hdigits⟩ := (hread n h1 h4).mp hn
      exact ⟨zeros, _, hzeros, ⟨h1, h4, rfl⟩, hdigits⟩
    · cases h
  · rintro ⟨zeros, _, hzeros, ⟨h1, h4, rfl⟩, hdigits⟩
    have hne : digits.isEmpty = false := by
      rw [hdigits, Nat.toString_eq_repr, Nat.toList_repr, Nat.toDigits_of_lt_base (by omega)]
      simp
    rw [hne, (hread _ h1 h4).mpr ⟨zeros, hzeros, hdigits⟩]
    simp [h1, h4]

theorem LaneNumeral.notMem {digits : List Char} {lanes : UInt8} (h : LaneNumeral digits lanes) :
    '<' ∉ digits := by
  obtain ⟨zeros, _, hzeros, ⟨h1, h4, rfl⟩, rfl⟩ := h
  have hlanes : lanes.toNat ∈ [1, 2, 3, 4] := by
    simp only [List.mem_cons, List.not_mem_nil]
    omega
  have hdigit : ∀ n ∈ [1, 2, 3, 4], '<' ∉ (toString n).toList := by decide
  rw [List.mem_append, not_or]
  exact ⟨fun hmem => absurd (hzeros _ hmem) (by decide), hdigit _ hlanes⟩

theorem exists_split {cs : List Char} (h : '<' ∈ cs) :
    cs = cs.takeWhile (· != '<') ++ '<' :: (cs.dropWhile (· != '<')).drop 1 := by
  induction cs with
  | nil => simp at h
  | cons c cs ih =>
    by_cases hc : c = '<'
    · simp [hc]
    · have hmem : '<' ∈ cs := by simpa [Ne.symm hc] using h
      simp only [bne_iff_ne, ne_eq, hc, not_false_eq_true, List.takeWhile_cons_of_pos,
        List.dropWhile_cons_of_pos, List.cons_append, List.cons.injEq, true_and]
      exact ih hmem

theorem takeWhile_split {before : List Char} (after : List Char) (h : '<' ∉ before) :
    (before ++ '<' :: after).takeWhile (· != '<') = before ∧
      (before ++ '<' :: after).dropWhile (· != '<') = '<' :: after := by
  have hall : ∀ c ∈ before, (c != '<') = true := by
    intro c hc
    simp only [bne_iff_ne]
    rintro rfl
    exact h hc
  rw [List.takeWhile_append_of_pos hall, List.dropWhile_append_of_pos hall]
  simp

theorem identifier_of_known {k : ScalarKind} (hk : k.isKnown = true) :
    Text.Identifier k.name.toList := by
  have hall : ∀ k ∈ ScalarKind.all, Text.isIdentifierChars k.name.toList = true := by decide
  have hmem : k ∈ ScalarKind.all := List.mem_of_find?_eq_some (ScalarKind.ofName?_name hk)
  exact Text.isIdentifierChars_iff.mp (hall k hmem)

theorem parseVector_eq_ok_iff {cs rest : List Char} {t : TypeExpr} :
    parseVector cs rest = .ok t ↔
      ∃ k lanes digits inner, k.isKnown = true ∧ LaneNumeral digits lanes ∧
        Text.Padded k.name.toList inner ∧ rest = digits ++ '<' :: inner ++ ['>'] ∧
          t = .vector k lanes := by
  constructor
  · intro h
    unfold parseVector at h
    split at h
    · cases h
    rename_i hopen
    have hmem : '<' ∈ rest := by simpa using hopen
    have hsplit := exists_split hmem
    split at h
    · cases h
    rename_i lanes hlanes
    split at h
    · cases h
    rename_i name hname
    split at h
    · rename_i k hk
      obtain rfl := Except.ok.inj h
      obtain ⟨-, inner, hinner, hrest⟩ := bracketed?_eq_some_iff.mp hname
      obtain ⟨hknown, hk⟩ := ScalarKind.ofName?_eq_some_iff.mp hk
      refine ⟨k, lanes, _, inner, hknown, laneCount?_eq_some_iff.mp hlanes, ?_, ?_, rfl⟩
      · rwa [← hk, String.toList_ofList]
      · rw [List.append_assoc, List.cons_append, ← hrest]
        exact hsplit
    · cases h
  · rintro ⟨k, lanes, digits, inner, hk, hlanes, hinner, rfl, rfl⟩
    have hbracket : bracketed? (inner ++ ['>']) = some k.name.toList :=
      bracketed?_eq_some_iff.mpr ⟨(identifier_of_known hk).trimmed, inner, hinner, rfl⟩
    obtain ⟨htake, hdrop⟩ := takeWhile_split (inner ++ ['>']) hlanes.notMem
    rw [List.append_assoc, List.cons_append]
    unfold parseVector
    rw [htake, hdrop, laneCount?_eq_some_iff.mpr hlanes, List.drop_one, List.tail_cons, hbracket]
    simp [ScalarKind.ofName?_name hk]

abbrev Spelled : TypeExpr → List Char → Prop := Spelling LaneNumeral NoVector

theorem Spelling.trimmed {count : List Char → UInt8 → Prop} {free : List Char → Prop} {t : TypeExpr}
    {cs : List Char} (h : Spelling count free t cs) : Text.Trimmed cs := by
  cases h with
  | scalar hk => exact (identifier_of_known hk).trimmed
  | vector hk hlanes hinner => exact Text.trimmed_of_ends (c := 'v') (by decide) (by decide)
  | ref hname hinner => exact Text.trimmed_of_ends (c := 'r') (by decide) (by decide)
  | inline hname hscalar hfree => exact hname.trimmed

theorem ofName?_bracketed (cs : List Char) :
    ScalarKind.ofName? (String.ofList (cs ++ ['>'])) = none := by
  rw [ScalarKind.ofName?_eq_none_iff]
  intro k hk hname
  apply (identifier_of_known hk).notMem (c := '>') (by decide)
  rw [← hname]
  simp

theorem parseChars_of_spelled {t : TypeExpr} {cs : List Char} (h : Spelled t cs) :
    parseChars cs = .ok t := by
  cases h with
  | @scalar k hk =>
    have hne : k.name.toList.isEmpty = false := (identifier_of_known hk).isEmpty
    unfold parseChars
    simp [hne, ScalarKind.ofName?_name hk]
  | @vector k lanes digits inner hk hlanes hinner =>
    have hvector : parseVector ("vec".toList ++ digits ++ '<' :: inner ++ ['>'])
        (digits ++ '<' :: inner ++ ['>']) = .ok (.vector k lanes) :=
      parseVector_eq_ok_iff.mpr ⟨k, lanes, digits, inner, hk, hlanes, hinner, rfl, rfl⟩
    have hafter : after? "vec".toList ("vec".toList ++ digits ++ '<' :: inner ++ ['>']) =
        some (digits ++ '<' :: inner ++ ['>']) := after?_eq_some_iff.mpr (by simp)
    have href : after? "ref<".toList ("vec".toList ++ digits ++ '<' :: inner ++ ['>']) = none := rfl
    unfold parseChars
    rw [ofName?_bracketed, href, hafter]
    exact hvector
  | @ref name inner hname hinner =>
    have hafter : after? "ref<".toList ("ref".toList ++ '<' :: inner ++ ['>']) =
        some (inner ++ ['>']) := after?_eq_some_iff.mpr (by simp)
    have hbracket : bracketed? (inner ++ ['>']) = some name.toList :=
      bracketed?_eq_some_iff.mpr ⟨hname.trimmed, inner, hinner, rfl⟩
    unfold parseChars
    rw [ofName?_bracketed, hafter]
    simp [hbracket, parseRef, isName, Text.isIdentifierChars_iff.mpr hname]
  | @inline name hname hscalar hfree =>
    have hne : name.toList.isEmpty = false := hname.isEmpty
    have href : after? "ref<".toList name.toList = none := by
      rw [Option.eq_none_iff_forall_ne_some]
      intro rest hrest
      apply hname.notMem (c := '<') (by decide)
      rw [after?_eq_some_iff.mp hrest]
      simp
    have hvec : after? "vec".toList name.toList = none := by
      rw [Option.eq_none_iff_forall_ne_some]
      intro rest hrest
      exact hfree ⟨rest, (after?_eq_some_iff.mp hrest).symm⟩
    unfold parseChars
    rw [String.ofList_toList, ScalarKind.ofName?_eq_none_iff.mpr hscalar, href, hvec]
    simp [hne, isName, Text.isIdentifierChars_iff.mpr hname]

theorem spelled_of_parseChars {t : TypeExpr} {cs : List Char} (h : parseChars cs = .ok t) :
    Spelled t cs := by
  unfold parseChars at h
  split at h
  · cases h
  split at h
  · rename_i k hk
    obtain rfl := Except.ok.inj h
    obtain ⟨hknown, hname⟩ := ScalarKind.ofName?_eq_some_iff.mp hk
    rw [← String.toList_ofList (l := cs), hname]
    exact .scalar hknown
  rename_i hscalar
  split at h
  · rename_i name hname
    obtain ⟨rest, hafter, hbracket⟩ := Option.bind_eq_some_iff.mp hname
    obtain ⟨-, inner, hinner, rfl⟩ := bracketed?_eq_some_iff.mp hbracket
    rw [parseRef] at h
    split_ifs at h with hident
    obtain rfl := Except.ok.inj h
    rw [after?_eq_some_iff.mp hafter]
    apply Spelling.ref
    · rwa [String.toList_ofList, ← Text.isIdentifierChars_iff]
    · rwa [String.toList_ofList]
  split at h
  · rename_i rest hafter
    obtain ⟨k, lanes, digits, inner, hk, hlanes, hinner, rfl, rfl⟩ := parseVector_eq_ok_iff.mp h
    rw [after?_eq_some_iff.mp hafter, ← List.append_assoc, ← List.append_assoc]
    exact .vector hk hlanes hinner
  · rename_i hafter
    split_ifs at h with hident
    obtain ⟨name, rfl⟩ : ∃ name : String, cs = name.toList := ⟨String.ofList cs, by simp⟩
    rw [String.ofList_toList] at h hscalar
    obtain rfl := Except.ok.inj h
    apply Spelling.inline
    · exact Text.isIdentifierChars_iff.mp hident
    · exact ScalarKind.ofName?_eq_none_iff.mp hscalar
    · rintro ⟨rest, hrest⟩
      rw [after?_eq_some_iff.mpr hrest.symm] at hafter
      cases hafter

theorem exists_spelled_of_parse {s : String} {t : TypeExpr} (h : parse s = .ok t) :
    ∃ cs, Text.Padded cs s.toList ∧ Spelled t cs :=
  ⟨_, (Text.padded_trimChars _).1, spelled_of_parseChars h⟩

theorem parse_of_spelled {s : String} {t : TypeExpr} {cs : List Char}
    (hpad : Text.Padded cs s.toList) (h : Spelled t cs) : parse s = .ok t := by
  rw [parse, Text.trimChars_of_padded h.trimmed hpad]
  exact parseChars_of_spelled h

theorem parse_ok_iff_spelled (s : String) (t : TypeExpr) :
    parse s = .ok t ↔ ∃ cs, Text.Padded cs s.toList ∧ Spelling LaneNumeral NoVector t cs := by
  constructor
  · exact exists_spelled_of_parse
  · rintro ⟨cs, hpad, h⟩
    exact parse_of_spelled hpad h

def Plain (s : String) (t : TypeExpr) : Prop :=
  ∃ cs, Text.Padded cs s.toList ∧ Spelling LaneDigit (fun _ => True) t cs

theorem plain_grammar_fails :
    (Plain "vector" (.inline "vector") ∧ parse "vector" = .error (.noElement "vector")) ∧
      parse "vec02<f32>" = .ok (.vector .f32 2) ∧ ¬ Plain "vec02<f32>" (.vector .f32 2) := by
  refine ⟨⟨⟨_, Text.Padded.refl _, ?_⟩, by decide⟩, by decide, ?_⟩
  · apply Spelling.inline
    · exact Text.isIdentifierChars_iff.mp (by decide)
    · exact ScalarKind.ofName?_eq_none_iff.mp (by decide)
    · trivial
  · rintro ⟨cs, hpad, h⟩
    have htrim : "vec02<f32>".toList = cs := Text.trimChars_of_padded h.trimmed hpad
    cases h with
    | vector hk hlanes hinner =>
      obtain ⟨-, -, rfl⟩ := hlanes
      have hdigit : some '0' = some '2' := congrArg (fun cs : List Char => cs[3]?) htrim
      cases hdigit

def Spellable : TypeExpr → Prop
  | .scalar k => k.isKnown = true
  | .vector k lanes => k.isKnown = true ∧ 1 ≤ lanes.toNat ∧ lanes.toNat ≤ 4
  | .ref name => Text.Identifier name.toList
  | .inline name => Text.Identifier name.toList ∧
      (∀ k : ScalarKind, k.isKnown = true → name ≠ k.name) ∧ NoVector name.toList

theorem Spelling.spellable {t : TypeExpr} {cs : List Char} (h : Spelled t cs) : t.Spellable := by
  cases h with
  | scalar hk => exact hk
  | vector hk hlanes hinner =>
    obtain ⟨_, _, _, ⟨h1, h4, -⟩, -⟩ := hlanes
    exact ⟨hk, h1, h4⟩
  | ref hname hinner => exact hname
  | inline hname hscalar hfree => exact ⟨hname, hscalar, hfree⟩

theorem Spellable.spelled {t : TypeExpr} (h : t.Spellable) : Spelled t t.render.toList := by
  cases t with
  | scalar k => exact .scalar h
  | vector k lanes =>
    obtain ⟨hk, h1, h4⟩ := h
    have hlanes : LaneNumeral (toString lanes.toNat).toList lanes :=
      ⟨[], _, by simp, ⟨h1, h4, rfl⟩, rfl⟩
    have hspelled : Spelled (.vector k lanes)
        ("vec".toList ++ (toString lanes.toNat).toList ++ '<' :: k.name.toList ++ ['>']) :=
      .vector hk hlanes (Text.Padded.refl _)
    simpa [render] using hspelled
  | ref name =>
    have hspelled : Spelled (.ref name) ("ref".toList ++ '<' :: name.toList ++ ['>']) :=
      .ref h (Text.Padded.refl _)
    simpa [render] using hspelled
  | inline name => exact .inline h.1 h.2.1 h.2.2

theorem parse_render {t : TypeExpr} (h : t.Spellable) : parse t.render = .ok t :=
  parse_of_spelled (Text.Padded.refl _) h.spelled

theorem printed_types_read_back :
    (∀ s t, parse s = .ok t → parse t.render = .ok t) ∧
      ∀ t : TypeExpr, t.Spellable → parse t.render = .ok t := by
  refine ⟨?_, fun t ht => parse_render ht⟩
  intro s t h
  obtain ⟨cs, -, hspelled⟩ := exists_spelled_of_parse h
  exact parse_render hspelled.spellable

theorem printed_types_read_back_padded :
    parse " vec004<\tu8 >" = .ok (.vector .u8 4) ∧ parse "vec4<u8>" = .ok (.vector .u8 4) ∧
      (TypeExpr.ref "f32").Spellable ∧ parse "ref<f32>" = .ok (.ref "f32") := by
  have hread : parse " vec004<\tu8 >" = .ok (.vector .u8 4) := by decide
  have hvector : (TypeExpr.vector .u8 4).render = "vec4<u8>" := by decide
  have href : (TypeExpr.ref "f32").Spellable := Text.isIdentifierChars_iff.mp (by decide)
  have hprint : (TypeExpr.ref "f32").render = "ref<f32>" := by decide
  refine ⟨hread, ?_, href, ?_⟩
  · rw [← hvector]
    exact printed_types_read_back.1 _ _ hread
  · rw [← hprint]
    exact printed_types_read_back.2 _ href

end TypeExpr

end WordLayout
