import Mathlib
import WordLayout.Shader.Program
import WordLayout.Proofs.Sequence
import WordLayout.Proofs.Shader.Execution
import WordLayout.Proofs.Shader.Listing.Syntax

namespace WordLayout.Shader.Listing

section numbers

theorem digitValue?_digitChar {d : Nat} (hd : d < 16) :
    Text.digitValue? (Nat.digitChar d) = some d := by
  interval_cases d <;> rfl

theorem readDigits_concat {base limit n d : Nat} {cs : List Char} (hbase : base ≤ 16)
    (hd : d < base) (hn : Text.readDigits base limit cs = .ok n) (hlimit : n * base + d ≤ limit) :
    Text.readDigits base limit (cs ++ [Nat.digitChar d]) = .ok (n * base + d) := by
  rw [Text.readDigits] at hn ⊢
  rw [List.foldlM_append, hn]
  simp [Bind.bind, Except.bind, digitValue?_digitChar (hd.trans_le hbase), Nat.not_le.mpr hd,
    Nat.not_lt.mpr hlimit]

theorem readDigits_toDigits {base limit : Nat} (hbase : 1 < base) (hbase' : base ≤ 16) {n : Nat}
    (hn : n ≤ limit) : Text.readDigits base limit (Nat.toDigits base n) = .ok n := by
  induction n using Nat.strong_induction_on with
  | _ n ih =>
    by_cases hlt : n < base
    · rw [Nat.toDigits_of_lt_base hlt]
      have hone := @readDigits_concat base limit 0 n [] hbase' hlt rfl (by omega)
      simpa using hone
    · have hle := Nat.not_lt.mp hlt
      have hdiv : n / base < n := Nat.div_lt_self (by omega) hbase
      have heq : n / base * base + n % base = n := Nat.div_add_mod' n base
      rw [Nat.toDigits_of_base_le hbase hle]
      have hlast := readDigits_concat hbase' (Nat.mod_lt n (by omega))
        (ih _ hdiv (hdiv.le.trans hn)) (heq.trans_le hn)
      rwa [heq] at hlast

theorem toDigits_length_pos (base n : Nat) : 0 < (Nat.toDigits base n).length :=
  List.length_pos_iff.mpr Nat.toDigits_ne_nil

theorem forall_mem_toDigits {base : Nat} (hbase : 1 < base) {P : Char → Prop}
    (h : ∀ d < base, P (Nat.digitChar d)) (n : Nat) : ∀ c ∈ Nat.toDigits base n, P c := by
  induction n using Nat.strong_induction_on with
  | _ n ih =>
    by_cases hlt : n < base
    · rw [Nat.toDigits_of_lt_base hlt, List.forall_mem_singleton]
      exact h n hlt
    · rw [Nat.toDigits_of_base_le hbase (Nat.not_lt.mp hlt), List.forall_mem_append,
        List.forall_mem_singleton]
      exact ⟨ih _ (Nat.div_lt_self (by omega) hbase), h _ (Nat.mod_lt n (by omega))⟩

theorem hexDigits_toList (n : Nat) : (Text.hexDigits 1 n).toList = Nat.toDigits 16 n := by
  have hpos := toDigits_length_pos 16 n
  have hzero : 1 - (Nat.toDigits 16 n).length = 0 := by omega
  simp [Text.hexDigits, hzero]

theorem number?_decimal (n : UInt32) : number? (toString n.toNat).toList = some n.toNat := by
  have hlist : (toString n.toNat).toList = Nat.toDigits 10 n.toNat := by
    rw [Nat.toString_eq_ofList_toDigits, String.toList_ofList]
  have hread := @readDigits_toDigits 10 _ (by decide) (by decide) _
    (Nat.le_sub_one_of_lt n.toNat_lt)
  have hx : ∀ c ∈ Nat.toDigits 10 n.toNat, c ≠ 'x' := by
    rintro c hc rfl
    have := Nat.isDigit_of_mem_toDigits (by decide) (by decide) hc
    cases this
  rw [hlist, number?.eq_def]
  split
  · rename_i c cs heq
    exact absurd rfl (hx 'x' (by rw [heq]; simp))
  · rw [hread]
    simp

theorem number?_hex (n : UInt32) :
    number? ("0x" ++ Text.hexDigits 1 n.toNat).toList = some n.toNat := by
  have hread := @readDigits_toDigits 16 _ (by decide) (by decide) _
    (Nat.le_sub_one_of_lt n.toNat_lt)
  have hne : Nat.toDigits 16 n.toNat ≠ [] := Nat.toDigits_ne_nil
  rw [String.toList_append, hexDigits_toList]
  cases hd : Nat.toDigits 16 n.toNat with
  | nil => exact absurd hd hne
  | cons c cs =>
    rw [hd] at hread
    have hlist : "0x".toList ++ c :: cs = '0' :: 'x' :: c :: cs := rfl
    rw [hlist, number?, hread]
    rfl

variable (l : Language)

theorem literal?_of_number? {s : String} {n : UInt32} (h : number? s.toList = some n.toNat) :
    literal? l (s ++ l.literalEnd) = some n := by
  cases l with
  | glsl | hlsl => simp [literal?, Language.literalEnd, h]
  | wgsl => simp [literal?, Language.literalEnd, h]

theorem literal?_uint (n : UInt32) : literal? l (l.uint n) = some n :=
  literal?_of_number? l (number?_decimal n)

theorem literal?_hex (n : UInt32) : literal? l (l.hex n) = some n :=
  literal?_of_number? l (number?_hex n)

end numbers

section words

variable {rest : List Char}

def Stop (cs : List Char) : Prop := ∀ c ∈ cs.head?, isWordChar c = false

theorem tokensFrom_stop (h : Stop rest) (w : List Char) :
    tokensFrom w rest = endWord w (tokens rest) := by
  unfold tokens tokensFrom
  split <;> try rfl
  rename_i c cs _ _ _ _
  have hc : isWordChar c = false := h c rfl
  simp only [hc, Bool.false_eq_true, if_false]
  split <;> rfl

theorem tokensFrom_word {cs : List Char} (h : ∀ c ∈ cs, isWordChar c = true) (w : List Char) :
    tokensFrom w (cs ++ rest) = tokensFrom (w ++ cs) rest := by
  induction cs generalizing w with
  | nil => rw [List.nil_append, List.append_nil]
  | cons c cs ih =>
    rw [List.forall_mem_cons] at h
    have hne : ∀ x, isWordChar x = false → c ≠ x := by
      rintro x hx rfl
      rw [h.1] at hx
      cases hx
    rw [List.cons_append, tokensFrom, if_pos h.1, ih h.2, List.append_assoc, List.singleton_append]
    · exact fun _ heq => absurd heq (hne '/' (by decide))
    · exact fun _ heq => absurd heq (hne '<' (by decide))
    · exact fun _ heq => absurd heq (hne '>' (by decide))
    · exact fun _ heq => absurd heq (hne '-' (by decide))

def IsWord (s : String) : Prop := s.toList ≠ [] ∧ ∀ c ∈ s.toList, isWordChar c = true

theorem IsWord.of_identifier {s : String} (h : Text.isIdentifier s = true) : IsWord s := by
  unfold Text.isIdentifier at h
  unfold IsWord
  cases hs : s.toList with
  | nil =>
    rw [hs] at h
    cases h
  | cons c cs =>
    rw [hs] at h
    simp only [Text.isIdentifierChars, Bool.and_eq_true, List.all_eq_true] at h
    refine ⟨List.cons_ne_nil _ _, List.forall_mem_cons.mpr ⟨?_, h.2⟩⟩
    rw [isWordChar, h.1, Bool.true_or]

theorem tokens_word {s : String} (hs : IsWord s) (h : Stop rest) :
    tokens (s.toList ++ rest) = .word s :: tokens rest := by
  rw [tokens, tokensFrom_word hs.2, List.nil_append, tokensFrom_stop h, endWord,
    if_neg (by simpa using hs.1), String.ofList_toList]

theorem stop_nil : Stop [] := nofun

theorem stop_cons {c : Char} (h : isWordChar c = false) (cs : List Char) : Stop (c :: cs) := by
  rintro _ ⟨⟩
  exact h

theorem tokens_space : tokens (' ' :: rest) = tokens rest := rfl

def isMark (c : Char) : Bool :=
  c ∈ ['(', ')', '[', ']', '{', '}', '.', ',', ';', ':', '=', '@', '#']

theorem tokens_mark {c : Char} (h : isMark c = true) :
    tokens (c :: rest) = .mark c :: tokens rest := by
  simp only [isMark, List.mem_cons, List.not_mem_nil, or_false, decide_eq_true_eq] at h
  rcases h with rfl | rfl | rfl | rfl | rfl | rfl | rfl | rfl | rfl | rfl | rfl | rfl | rfl <;> rfl

theorem stop_mark {c : Char} (h : isMark c = true) (cs : List Char) : Stop (c :: cs) := by
  apply stop_cons
  simp only [isMark, List.mem_cons, List.not_mem_nil, or_false, decide_eq_true_eq] at h
  rcases h with rfl | rfl | rfl | rfl | rfl | rfl | rfl | rfl | rfl | rfl | rfl | rfl | rfl <;> rfl

theorem tokens_angle {s : String} (hs : IsWord s) :
    tokens ('<' :: (s.toList ++ rest)) = .mark '<' :: tokens (s.toList ++ rest) := by
  cases h : s.toList with
  | nil => exact absurd h hs.1
  | cons c cs =>
    have hne : '<' ≠ c := by
      rintro rfl
      have := hs.2 '<' (by simp [h])
      cases this
    rw [tokens, List.cons_append, tokensFrom]
    · rfl
    · exact fun _ heq => absurd heq (by decide)
    · exact fun _ _ heq => hne (List.cons.inj heq).1.symm
    · exact fun _ heq => absurd heq (by decide)
    · exact fun _ heq => absurd heq (by decide)

end words

section lines

def Plain (s : String) : Prop := s.toList.all (fun c => !isLineBreak c) = true

@[simp]
theorem plain_append {s s' : String} : Plain (s ++ s') ↔ Plain s ∧ Plain s' := by
  simp only [Plain, String.toList_append, List.all_append, Bool.and_eq_true]

theorem IsWord.plain {s : String} (h : IsWord s) : Plain s := by
  apply List.all_eq_true.mpr
  intro c hc
  have hword := h.2 c hc
  by_contra hbreak
  simp only [isLineBreak, Bool.not_eq_true', Bool.not_eq_false, List.mem_cons, List.not_mem_nil,
    or_false, decide_eq_true_eq] at hbreak
  rcases hbreak with rfl | rfl | rfl | rfl | rfl | rfl | rfl <;> cases hword

theorem plain_intercalate (s : String) (hs : Plain s) {ss : List String} (h : ∀ x ∈ ss, Plain x) :
    Plain (s.intercalate ss) := by
  induction ss with
  | nil => rfl
  | cons a ss ih =>
    rw [List.forall_mem_cons] at h
    cases ss with
    | nil => simpa using h.1
    | cons b ss => simpa [String.intercalate_cons_cons, hs, h.1] using ih h.2

theorem plain_of_forall₂ {α : Type} {R : String → α → Prop} (hR : ∀ s a, R s a → Plain s)
    {ss : List String} {as : List α} (h : List.Forall₂ R ss as) : ∀ s ∈ ss, Plain s := by
  induction h with
  | nil => exact nofun
  | cons ha _ ih => exact List.forall_mem_cons.mpr ⟨hR _ _ ha, ih⟩

end lines

section macros

variable {mac : Macros} {rest : List Char} {x : String}

def toks (mac : Macros) (cs : List Char) : List Token := (tokens cs).map (replace mac)

def Kept (mac : Macros) (x : String) : Prop := Text.isIdentifier x = true ∧ mac.lookup x = none

/-- The names that are replaced are identifiers with an underscore. -/
def Underscored (mac : Macros) : Prop :=
  ∀ x, mac.lookup x ≠ none → Text.isIdentifier x = true ∧ '_' ∈ x.toList

theorem Underscored.kept (hmac : Underscored mac) (hx : Text.isIdentifier x = true)
    (h : '_' ∉ x.toList) : Kept mac x := by
  refine ⟨hx, ?_⟩
  by_contra hne
  exact h (hmac x hne).2

theorem Underscored.lookup_eq_none (hmac : Underscored mac) (hx : Text.isIdentifier x = false) :
    mac.lookup x = none := by
  by_contra hne
  rw [(hmac x hne).1] at hx
  cases hx

theorem toks_word (hx : IsWord x) (hmac : mac.lookup x = none) (h : Stop rest) :
    toks mac (x.toList ++ rest) = .word x :: toks mac rest := by
  rw [toks, tokens_word hx h, List.map_cons, replace, hmac]
  rfl

theorem toks_kept (hx : Kept mac x) (h : Stop rest) :
    toks mac (x.toList ++ rest) = .word x :: toks mac rest :=
  toks_word (.of_identifier hx.1) hx.2 h

theorem toks_space : toks mac (' ' :: rest) = toks mac rest := rfl

theorem toks_mark {c : Char} (h : isMark c = true) :
    toks mac (c :: rest) = .mark c :: toks mac rest := by
  rw [toks, tokens_mark h]
  rfl

theorem toks_angle (hx : Kept mac x) :
    toks mac ('<' :: (x.toList ++ rest)) = .mark '<' :: toks mac (x.toList ++ rest) := by
  rw [toks, tokens_angle (.of_identifier hx.1), List.map_cons]
  rfl

theorem toks_close : toks mac ('>' :: ' ' :: rest) = .mark '>' :: toks mac rest := rfl

end macros

section terms

variable {l : Language} {mac : Macros} {outer : List Open} {chain before : Chain} {t : Term}
  {ts : List Token}

theorem readFrom_word {w : String} (h : atom? l w = some t) :
    readFrom l outer chain none (.word w :: ts) = readFrom l outer chain (some t) ts := by
  rw [readFrom, h]

theorem readFrom_member {x : String} (h : Text.isIdentifier x = true) :
    readFrom l outer chain (some t) (.mark '.' :: .word x :: ts) =
      readFrom l outer chain (some (.member t x)) ts := by
  rw [readFrom, if_pos h]

structure Operand (l : Language) (mac : Macros) (s : String) (t : Term) : Prop where
  plain : Plain s
  read : ∀ outer chain rest, Stop rest →
    readFrom l outer chain none (toks mac (s.toList ++ rest)) =
      readFrom l outer chain (some t) (toks mac rest)

structure Whole (l : Language) (mac : Macros) (s : String) (t : Term) : Prop where
  plain : Plain s
  read : ∃ chain last, resolve chain last = t ∧ ∀ outer rest, Stop rest →
    readFrom l outer [] none (toks mac (s.toList ++ rest)) =
      readFrom l outer chain (some last) (toks mac rest)

structure Opening (l : Language) (mac : Macros) (s f : String) : Prop where
  plain : Plain s
  read : ∀ outer chain rest,
    readFrom l outer chain none (toks mac (s.toList ++ rest)) =
      readFrom l ((.call f [], chain) :: outer) [] none (toks mac rest)

variable {s s' x : String} {u : Term}

theorem Operand.whole (h : Operand l mac s t) : Whole l mac s t where
  plain := h.plain
  read := ⟨[], t, rfl, fun outer rest => h.read outer [] rest⟩

theorem operand_replaced (hx : IsWord x) (h : atom? l ((mac.lookup x).getD x) = some t) :
    Operand l mac x t where
  plain := hx.plain
  read outer chain rest hrest := by
    have htoks : toks mac (x.toList ++ rest) = .word ((mac.lookup x).getD x) :: toks mac rest := by
      rw [toks, tokens_word hx hrest, List.map_cons, replace]
      rfl
    rw [htoks, readFrom_word h]

theorem operand_word (hx : IsWord x) (hmac : mac.lookup x = none) (h : atom? l x = some t) :
    Operand l mac x t :=
  operand_replaced hx (by rwa [hmac])

theorem operand_name (hx : Kept mac x) : Operand l mac x (.name x) :=
  operand_word (.of_identifier hx.1) hx.2 (by rw [atom?, if_pos hx.1])

theorem Kept.plain (hx : Kept mac x) : Plain x := (IsWord.of_identifier hx.1).plain

theorem Kept.ne_empty (hx : Kept mac x) : x ≠ "" := by
  rintro rfl
  exact absurd hx.1 (by decide)

theorem Operand.member (h : Operand l mac s t) (hx : Kept mac x) :
    Operand l mac (s ++ "." ++ x) (.member t x) where
  plain := plain_append.mpr ⟨plain_append.mpr ⟨h.plain, rfl⟩, hx.plain⟩
  read outer chain rest hrest := by
    have hlist : (s ++ "." ++ x).toList ++ rest = s.toList ++ '.' :: (x.toList ++ rest) := by simp
    rw [hlist, h.read _ _ _ (stop_cons rfl _), toks_mark rfl, toks_kept hx hrest,
      readFrom_member hx.1]

theorem Whole.group (h : Whole l mac s t) : Operand l mac ("(" ++ s ++ ")") t where
  plain := plain_append.mpr ⟨plain_append.mpr ⟨rfl, h.plain⟩, rfl⟩
  read outer chain rest _ := by
    obtain ⟨inner, last, rfl, hread⟩ := h.read
    have hlist : ("(" ++ s ++ ")").toList ++ rest = '(' :: (s.toList ++ ')' :: rest) := by simp
    rw [hlist, toks_mark rfl, readFrom, hread _ _ (stop_cons rfl _), toks_mark rfl, readFrom]

theorem Operand.element {i : String} (h : Operand l mac s t) (hi : Whole l mac i u) :
    Operand l mac (s ++ "[" ++ i ++ "]") (.element t u) where
  plain := by
    simp only [plain_append]
    exact ⟨⟨⟨h.plain, rfl⟩, hi.plain⟩, rfl⟩
  read outer chain rest _ := by
    obtain ⟨inner, last, rfl, hread⟩ := hi.read
    have hlist : (s ++ "[" ++ i ++ "]").toList ++ rest =
        s.toList ++ '[' :: (i.toList ++ ']' :: rest) := by simp
    rw [hlist, h.read _ _ _ (stop_cons rfl _), toks_mark rfl, readFrom,
      hread _ _ (stop_cons rfl _), toks_mark rfl, readFrom]

theorem opening_name (hx : Kept mac x) : Opening l mac (x ++ "(") x where
  plain := plain_append.mpr ⟨hx.plain, rfl⟩
  read outer chain rest := by
    have hlist : (x ++ "(").toList ++ rest = x.toList ++ '(' :: rest := by simp
    rw [hlist, (operand_name hx).read _ _ _ (stop_cons rfl _), toks_mark rfl, readFrom]

theorem opening_template {x' : String} (hx : Kept mac x) (hx' : Kept mac x') :
    Opening .wgsl mac (x ++ "<" ++ x' ++ ">" ++ "(") (x ++ "<" ++ x' ++ ">") where
  plain := by
    simp only [plain_append]
    exact ⟨⟨⟨⟨hx.plain, rfl⟩, hx'.plain⟩, rfl⟩, rfl⟩
  read outer chain rest := by
    have hlist : (x ++ "<" ++ x' ++ ">" ++ "(").toList ++ rest =
        x.toList ++ '<' :: (x'.toList ++ '>' :: '(' :: rest) := by simp
    have hend : toks mac ('>' :: '(' :: rest) = .mark '>' :: .mark '(' :: toks mac rest := rfl
    rw [hlist, (operand_name hx).read _ _ _ (stop_cons rfl _), toks_angle hx',
      toks_kept hx' (stop_cons rfl _), hend, readFrom, if_pos rfl, readFrom]

theorem readFrom_args {f : String} {ss : List String} {us : List Term}
    (h : List.Forall₂ (Whole l mac) ss us) (hne : ss ≠ []) (done : List Term) (outer : List Open)
    (chain : Chain) (rest : List Char) :
    readFrom l ((.call f done, chain) :: outer) [] none
        (toks mac ((", ".intercalate ss).toList ++ ')' :: rest)) =
      readFrom l outer chain (some (.apply f (done ++ us))) (toks mac rest) := by
  induction h generalizing done with
  | nil => exact absurd rfl hne
  | @cons a u ss us ha hrest ih =>
    obtain ⟨inner, last, rfl, hread⟩ := ha.read
    cases hrest with
    | nil =>
      rw [String.intercalate_singleton, hread _ _ (stop_cons rfl _), toks_mark rfl, readFrom]
    | @cons b v bs vs hb hbs =>
      have hlist : (", ".intercalate (a :: b :: bs)).toList ++ ')' :: rest =
          a.toList ++ ',' :: ' ' :: ((", ".intercalate (b :: bs)).toList ++ ')' :: rest) := by
        simp [String.intercalate_cons_cons]
      rw [hlist, hread _ _ (stop_cons rfl _), toks_mark rfl, toks_space, readFrom,
        ih (List.cons_ne_nil _ _), List.append_assoc, List.singleton_append]

theorem Opening.args {f : String} (hf : Opening l mac s f) {ss : List String} {us : List Term}
    (h : List.Forall₂ (Whole l mac) ss us) (hne : ss ≠ []) :
    Operand l mac (s ++ ", ".intercalate ss ++ ")") (.apply f us) where
  plain := by
    have hall := plain_of_forall₂ (fun _ _ hu => Whole.plain hu) h
    simp only [plain_append]
    exact ⟨⟨hf.plain, plain_intercalate ", " rfl hall⟩, rfl⟩
  read outer chain rest _ := by
    have hlist : (s ++ ", ".intercalate ss ++ ")").toList ++ rest =
        s.toList ++ ((", ".intercalate ss).toList ++ ')' :: rest) := by simp
    rw [hlist, hf.read, readFrom_args h hne, List.nil_append]

theorem Opening.arg {f : String} (hf : Opening l mac s f) (h : Whole l mac s' t) :
    Operand l mac (s ++ s' ++ ")") (.apply f [t]) := by
  have hargs := hf.args (.cons h .nil) (List.cons_ne_nil _ _)
  rwa [String.intercalate_singleton] at hargs

def between : Operator → String
  | .add => " + "
  | .mul => " * "
  | .shiftLeft => " << "
  | .shiftRight => " >> "
  | .and => " & "
  | .or => " | "

theorem plain_between (op : Operator) : Plain (between op) := by
  cases op <;> rfl

theorem toks_between (op : Operator) (rest : List Char) :
    toks mac ((between op).toList ++ rest) = .operator op :: toks mac rest := by
  cases op <;> rfl

theorem stop_between (op : Operator) (rest : List Char) : Stop ((between op).toList ++ rest) := by
  cases op <;> exact stop_cons rfl _

theorem Operand.then (h : Operand l mac s t) (op : Operator) (outer : List Open) (chain : Chain)
    (rest : List Char) :
    readFrom l outer chain none (toks mac ((s ++ between op).toList ++ rest)) =
      readFrom l outer (chain ++ [(t, op)]) none (toks mac rest) := by
  rw [String.toList_append, List.append_assoc, h.read _ _ _ (stop_between op rest), toks_between,
    readFrom]

theorem Operand.binary (h : Operand l mac s t) (op : Operator) (h' : Operand l mac s' u) :
    Whole l mac (s ++ between op ++ s') (.binary op t u) where
  plain := plain_append.mpr ⟨plain_append.mpr ⟨h.plain, plain_between op⟩, h'.plain⟩
  read := by
    refine ⟨[(t, op)], u, by cases op <;> rfl, fun outer rest hrest => ?_⟩
    rw [String.toList_append, List.append_assoc, h.then, h'.read _ _ _ hrest, List.nil_append]

theorem Operand.add_mul {s'' : String} {v : Term} (h : Operand l mac s t) (h' : Operand l mac s' u)
    (h'' : Operand l mac s'' v) :
    Whole l mac (s ++ between .add ++ (s' ++ between .mul ++ s''))
      (.binary .add t (.binary .mul u v)) where
  plain := by
    simp only [plain_append]
    exact ⟨⟨h.plain, rfl⟩, ⟨h'.plain, rfl⟩, h''.plain⟩
  read := by
    refine ⟨[(t, .add), (u, .mul)], v, rfl, fun outer rest hrest => ?_⟩
    rw [String.toList_append, List.append_assoc, h.then, String.toList_append, List.append_assoc,
      h'.then, h''.read _ _ _ hrest, List.nil_append, List.singleton_append]

section or

def orChain : Term → List Term → Chain × Term
  | t, [] => ([], t)
  | t, u :: us => ((t, .or) :: (orChain u us).1, (orChain u us).2)

theorem leading_orChain (t : Term) (us : List Term) :
    leading (orChain t us).1 (orChain t us).2 = (t, us.map (.or, ·)) := by
  induction us generalizing t with
  | nil => rfl
  | cons u us ih => rw [orChain, leading, ih, List.map_cons]

theorem joinLevel_ors {level : Nat} (hne : Operator.or.level ≠ level) (t : Term) (us : List Term) :
    joinLevel level t (us.map (.or, ·)) = (t, us.map (.or, ·)) := by
  induction us generalizing t with
  | nil => rfl
  | cons u us ih => rw [List.map_cons, joinLevel, if_neg hne, ih]

theorem joinLevel_or (t : Term) (us : List Term) :
    joinLevel Operator.or.level t (us.map (.or, ·)) = (us.foldl (.binary .or) t, []) := by
  induction us generalizing t with
  | nil => rfl
  | cons u us ih => rw [List.map_cons, joinLevel, if_pos rfl, ih, List.foldl_cons]

theorem resolve_orChain (t : Term) (us : List Term) :
    resolve (orChain t us).1 (orChain t us).2 = us.foldl (.binary .or) t := by
  have hrange : List.range 5 = [0, 1, 2, 3, Operator.or.level] := rfl
  have hkeep : ∀ level, level < Operator.or.level →
      joinLevel level t (us.map (.or, ·)) = (t, us.map (.or, ·)) :=
    fun level hlt => joinLevel_ors (Nat.ne_of_gt hlt) t us
  rw [resolve, leading_orChain, hrange]
  simp only [List.foldl_cons, List.foldl_nil, hkeep 0 (by decide), hkeep 1 (by decide),
    hkeep 2 (by decide), hkeep 3 (by decide), joinLevel_or]

theorem whole_or {ss : List String} {us : List Term} (hs : Operand l mac s t)
    (h : List.Forall₂ (Operand l mac) ss us) :
    Whole l mac (" | ".intercalate (s :: ss)) (us.foldl (.binary .or) t) where
  plain := by
    apply plain_intercalate " | " rfl
    exact List.forall_mem_cons.mpr
      ⟨hs.plain, plain_of_forall₂ (fun _ _ hu => Operand.plain hu) h⟩
  read := by
    refine ⟨_, _, resolve_orChain t us, fun outer rest hrest => ?_⟩
    have hchain : ∀ done, readFrom l outer done none
        (toks mac ((" | ".intercalate (s :: ss)).toList ++ rest)) =
          readFrom l outer (done ++ (orChain t us).1) (some (orChain t us).2) (toks mac rest) := by
      induction h generalizing s t with
      | nil =>
        intro done
        rw [String.intercalate_singleton, hs.read _ _ _ hrest, orChain, List.append_nil]
      | @cons a u ss us ha _ ih =>
        intro done
        rw [String.intercalate_cons_cons, String.toList_append, List.append_assoc]
        refine (hs.then .or outer done _).trans ?_
        rw [ih ha, List.append_assoc]
        rfl
    exact hchain []

end or

end terms

end WordLayout.Shader.Listing
