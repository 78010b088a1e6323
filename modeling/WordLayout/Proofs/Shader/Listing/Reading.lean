import Mathlib
import WordLayout.Proofs.Shader.Order
import WordLayout.Proofs.Shader.Listing.Statements

namespace WordLayout.Shader

namespace Listing

variable {l : Language}

section lines

variable {st st' st'' : State}

def Closed (s : String) : Prop := s = "" ∨ ∃ a, s = a ++ "\n"

theorem closed_line (s : String) : Closed (s ++ "\n") := .inr ⟨s, rfl⟩

theorem Closed.append {a b : String} (ha : Closed a) (hb : Closed b) : Closed (a ++ b) := by
  rcases hb with rfl | ⟨b, rfl⟩
  · rwa [String.append_empty]
  · exact .inr ⟨a ++ b, by rw [String.append_assoc]⟩

theorem readLines_nil (st : State) : readLines l st [] = some st := rfl

theorem readLines_append {a : String} (ha : Closed a) (b : String) :
    readLines l st (a ++ b).toList =
      (readLines l st a.toList).bind fun st' => readLines l st' b.toList := by
  rcases ha with rfl | ⟨a, rfl⟩
  · rw [String.empty_append]
    rfl
  · have hlist : (a ++ "\n" ++ b).toList = a.toList ++ '\n' :: b.toList := by simp
    have hline : (a ++ "\n").toList = a.toList ++ '\n' :: [] := by simp
    rw [hlist, hline, readLines, readLines, List.splitOnP_append_cons _ _ rfl,
      List.splitOnP_append_cons _ _ rfl, List.foldlM_append, List.foldlM_append]
    cases (List.splitOnP isLineBreak a.toList).foldlM (readLine l) st with
    | none => rfl
    | some st' => rfl

theorem readLines_line {s : String} (hs : Plain s) :
    readLines l st (s ++ "\n").toList = readLine l st s.toList := by
  have hnone : ∀ c ∈ s.toList, isLineBreak c = false := by
    simpa [Plain, List.all_eq_true] using hs
  have hlist : (s ++ "\n").toList = s.toList ++ '\n' :: [] := by simp
  rw [hlist, readLines, List.splitOnP_append_cons_of_forall_mem hnone _ rfl, List.foldlM_cons]
  cases readLine l st s.toList with
  | none => rfl
  | some st' => rfl

structure Reads (l : Language) (st : State) (s : String) (st' : State) : Prop where
  closed : Closed s
  read : readLines l st s.toList = some st'

theorem reads_empty (st : State) : Reads l st "" st := ⟨.inl rfl, readLines_nil st⟩

theorem Reads.append {a b : String} (ha : Reads l st a st') (hb : Reads l st' b st'') :
    Reads l st (a ++ b) st'' where
  closed := ha.closed.append hb.closed
  read := by rw [readLines_append ha.closed, ha.read, Option.bind_some, hb.read]

theorem reads_line {s : String} (hs : Plain s) (h : readLine l st s.toList = some st') :
    Reads l st (s ++ "\n") st' :=
  ⟨closed_line s, (readLines_line hs).trans h⟩

theorem toks_indent {mac : Macros} (s : String) :
    toks mac ("    " ++ s).toList = toks mac s.toList := by
  rw [String.toList_append]
  rfl

section parts

variable {mac : Macros} {file : File} {part : Part} {line : List Char} {ts : List Token}

theorem readLine_eq {t : Token} (h : toks mac line = t :: ts) (ht : t ≠ .mark '#') :
    readLine l ⟨mac, file, part⟩ line =
      (readPart l file part (t :: ts)).map fun p => ⟨mac, p.1, p.2⟩ := by
  cases htok : tokens line with
  | nil => simp [toks, htok] at h
  | cons t' ts' =>
    have hcons : (t' :: ts').map (replace mac) = t :: ts := by rw [← htok]; exact h
    have hmark : t' ≠ .mark '#' := by
      rintro rfl
      exact ht (List.cons.inj hcons).1.symm
    have hdirective : directive? l (t' :: ts') = none := by
      unfold directive?
      split
      · rename_i heq
        exact absurd (List.cons.inj heq).1 hmark
      · rfl
    rw [readLine]
    simp only [htok, List.cons_ne_nil, if_false, hdirective, hcons]

theorem readLine_word {w : String} (h : toks mac line = .word w :: ts) :
    readLine l ⟨mac, file, part⟩ line =
      (readPart l file part (.word w :: ts)).map fun p => ⟨mac, p.1, p.2⟩ :=
  readLine_eq h nofun

end parts

end lines

section blocks

theorem lines_text (c : Code) (ss : List String) :
    (c.lines ss).text = c.text ++ String.join (ss.map fun s =>
      String.ofList (List.replicate (4 * c.depth) ' ') ++ s ++ "\n") := by
  induction ss generalizing c with
  | nil => simp [Code.lines]
  | cons s ss ih =>
    have hrest := ih (c.line s)
    rw [Code.depth_line] at hrest
    rw [Code.lines, List.foldl_cons]
    refine hrest.trans ?_
    simp [Code.line, String.append_assoc]

theorem block_text (first : String) (body : List String) (last : String) :
    (({} : Code).block first body last).text =
      first ++ "\n" ++ String.join (body.map fun s => "    " ++ s ++ "\n") ++ (last ++ "\n") := by
  simp [Code.block, Code.line, Code.push, Code.pop, lines_text, String.append_assoc]

theorem reads_block {st inside full last' : State} {first last : String} {body : List String}
    (hfirst : Plain first) (hopen : readLine l st first.toList = some inside)
    (hbody : Reads l inside (String.join (body.map fun s => "    " ++ s ++ "\n")) full)
    (hlast : Plain last) (hclose : readLine l full last.toList = some last') :
    Reads l st (({} : Code).block first body last).text last' := by
  rw [block_text]
  exact ((reads_line hfirst hopen).append hbody).append (reads_line hlast hclose)

variable {mac : Macros} {file : File}

theorem reads_body {r : Routine} {ss : List String} {sts : List Statement}
    (h : List.Forall₂ (Line l mac) ss sts) :
    Reads l ⟨mac, file, .body r⟩ (String.join (ss.map fun s => "    " ++ s ++ "\n"))
      ⟨mac, file, .body { r with body := r.body ++ sts }⟩ := by
  induction h generalizing r with
  | nil =>
    rw [List.append_nil]
    exact reads_empty _
  | @cons s st ss sts hs _ ih =>
    have hread := hs.read
    have hline : readLine l ⟨mac, file, .body r⟩ ("    " ++ s).toList =
        some ⟨mac, file, .body { r with body := r.body ++ [st] }⟩ := by
      cases htoks : toks mac s.toList with
      | nil =>
        rw [htoks] at hread
        cases hread
      | cons t ts =>
        have hword : ∃ w, t = .word w := by
          rw [htoks] at hread
          cases t with
          | word w => exact ⟨w, rfl⟩
          | _ => cases hread
        obtain ⟨w, rfl⟩ := hword
        rw [htoks] at hread
        have hne : Token.word w :: ts ≠ [.mark '}'] := by simp
        rw [readLine_word ((toks_indent s).trans htoks)]
        simp only [readPart, if_neg hne, hread, Option.map_some]
    have hplain : Plain ("    " ++ s) := plain_append.mpr ⟨rfl, hs.plain⟩
    have hrest := @ih { r with body := r.body ++ [st] }
    rw [List.append_assoc, List.singleton_append] at hrest
    rw [List.map_cons, String.join_cons]
    exact (reads_line hplain hline).append hrest

end blocks

section declarations

variable {mac : Macros} {file : File}

theorem reads_blank (st : State) : Reads l st "\n" st := reads_line (s := "") rfl rfl

theorem bufferLine?_words (a b : String) (ts : List Token) :
    bufferLine? l (.word a :: .word b :: ts) = none := by
  cases l <;> simp [bufferLine?]

section structs

def ReadableType (mac : Macros) : TypeName → Prop
  | .scalar _ => True
  | .vector _ lanes => lanes = 2 ∨ lanes = 3 ∨ lanes = 4
  | .struct name => Kept mac name
  | .handle name => Kept mac (name ++ "Ref")

theorem kept_typeName (hmac : Underscored mac) {type : TypeName} (h : ReadableType mac type)
    (hl : l ≠ .wgsl ∨ ∀ k lanes, type ≠ .vector k lanes) : Kept mac (l.typeName type) := by
  cases type with
  | scalar k => exact kept_scalarType hmac l k
  | vector k lanes =>
    rcases hl with hl | hl
    · exact kept_vectorType hmac hl k h
    · exact absurd rfl (hl k lanes)
  | struct name => exact h
  | handle name => exact h

def memberText (l : Language) (m : Typed) : String :=
  match l with
  | .glsl | .hlsl => m.type ++ " " ++ m.name ++ ";"
  | .wgsl => m.name ++ ": " ++ m.type ++ ","

structure MemberLine (l : Language) (mac : Macros) (s : String) (q : String × String) : Prop where
  plain : Plain s
  read : ∃ w ts, toks mac s.toList = .word w :: ts ∧ member? l (.word w :: ts) = some q

section members

variable {x t t' : String} (hx : Kept mac x) (ht : Kept mac t)
include hx ht

theorem memberLine_word : MemberLine l mac (memberText l ⟨x, t⟩) (x, t) := by
  have hdeclared : Plain (t ++ " " ++ x ++ ";") ∧
      toks mac (t ++ " " ++ x ++ ";").toList = [.word t, .word x, .mark ';'] := by
    have hend : toks mac [';'] = [.mark ';'] := rfl
    have hlist : (t ++ " " ++ x ++ ";").toList = t.toList ++ ' ' :: (x.toList ++ [';']) := by simp
    simp only [plain_append]
    refine ⟨⟨⟨⟨ht.plain, rfl⟩, hx.plain⟩, rfl⟩, ?_⟩
    rw [hlist, toks_kept ht (stop_cons rfl _), toks_space, toks_kept hx (stop_cons rfl _), hend]
  cases l with
  | glsl => exact ⟨hdeclared.1, _, _, hdeclared.2, by simp only [member?, hx.1, if_true]⟩
  | hlsl => exact ⟨hdeclared.1, _, _, hdeclared.2, by simp only [member?, hx.1, if_true]⟩
  | wgsl =>
    have hend : toks mac [','] = [.mark ','] := rfl
    have hlist : (memberText .wgsl ⟨x, t⟩).toList =
        x.toList ++ ':' :: ' ' :: (t.toList ++ [',']) := by
      simp [memberText]
    have htoks : toks mac (memberText .wgsl ⟨x, t⟩).toList =
        [.word x, .mark ':', .word t, .mark ','] := by
      rw [hlist, toks_kept hx (stop_cons rfl _), toks_mark rfl, toks_space,
        toks_kept ht (stop_cons rfl _), hend]
    refine ⟨?_, _, _, htoks, by simp only [member?, hx.1, if_true]⟩
    simp only [memberText, plain_append]
    exact ⟨⟨⟨hx.plain, rfl⟩, ht.plain⟩, rfl⟩

theorem memberLine_template (ht' : Kept mac t') :
    MemberLine .wgsl mac (memberText .wgsl ⟨x, t ++ "<" ++ t' ++ ">"⟩)
      (x, t ++ "<" ++ t' ++ ">") := by
  have hlist : (memberText .wgsl ⟨x, t ++ "<" ++ t' ++ ">"⟩).toList =
      x.toList ++ ':' :: ' ' :: (t.toList ++ '<' :: (t'.toList ++ '>' :: [','])) := by
    simp [memberText]
  have hend : toks mac ['>', ','] = [.mark '>', .mark ','] := rfl
  have htoks : toks mac (memberText .wgsl ⟨x, t ++ "<" ++ t' ++ ">"⟩).toList =
      [.word x, .mark ':', .word t, .mark '<', .word t', .mark '>', .mark ','] := by
    rw [hlist, toks_kept hx (stop_cons rfl _), toks_mark rfl, toks_space,
      toks_kept ht (stop_cons rfl _), toks_angle ht', toks_kept ht' (stop_cons rfl _), hend]
  refine ⟨?_, _, _, htoks, by simp only [member?, hx.1, if_true]⟩
  simp only [memberText, plain_append]
  exact ⟨⟨⟨hx.plain, rfl⟩, ⟨⟨⟨ht.plain, rfl⟩, ht'.plain⟩, rfl⟩⟩, rfl⟩

omit ht in
theorem memberLine (hmac : Underscored mac) {type : TypeName} (h : ReadableType mac type) :
    MemberLine l mac (memberText l ⟨x, l.typeName type⟩) (x, l.typeName type) := by
  by_cases hvector : l = .wgsl ∧ ∃ k lanes, type = .vector k lanes
  · obtain ⟨rfl, k, lanes, rfl⟩ := hvector
    exact memberLine_template hx (kept_vec hmac h) (kept_scalarType hmac .wgsl k)
  · apply memberLine_word hx (kept_typeName hmac h ?_)
    by_cases hl : l = .wgsl
    · exact .inr fun k lanes heq => hvector ⟨hl, k, lanes, heq⟩
    · exact .inl hl

end members

theorem reads_members {name : String} {done qs : List (String × String)} {ss : List String}
    (h : List.Forall₂ (MemberLine l mac) ss qs) :
    Reads l ⟨mac, file, .members name done⟩ (String.join (ss.map fun s => "    " ++ s ++ "\n"))
      ⟨mac, file, .members name (done ++ qs)⟩ := by
  induction h generalizing done with
  | nil =>
    rw [List.append_nil]
    exact reads_empty _
  | @cons s q ss qs hs _ ih =>
    obtain ⟨w, ts, htoks, hread⟩ := hs.read
    have hne : Token.word w :: ts ≠ closing l := by cases l <;> simp [closing]
    have hline : readLine l ⟨mac, file, .members name done⟩ ("    " ++ s).toList =
        some ⟨mac, file, .members name (done ++ [q])⟩ := by
      rw [readLine_word ((toks_indent s).trans htoks)]
      simp only [readPart, if_neg hne, hread, Option.map_some]
    have hplain : Plain ("    " ++ s) := plain_append.mpr ⟨rfl, hs.plain⟩
    have hrest := @ih (done ++ [q])
    rw [List.append_assoc, List.singleton_append] at hrest
    rw [List.map_cons, String.join_cons]
    exact (reads_line hplain hline).append hrest

def closeText (l : Language) : String :=
  match l with
  | .glsl | .hlsl => "\x7d;"
  | .wgsl => "\x7d"

theorem plain_closeText (l : Language) : Plain (closeText l) := by
  cases l <;> rfl

theorem readLine_closeText (mac : Macros) (file : File) (part : Part) :
    readLine l ⟨mac, file, part⟩ (closeText l).toList =
      (readPart l file part (closing l)).map fun p => ⟨mac, p.1, p.2⟩ := by
  cases l with
  | glsl => exact readLine_eq rfl (by simp)
  | hlsl => exact readLine_eq rfl (by simp)
  | wgsl => exact readLine_eq rfl (by simp)

theorem readLine_brace (mac : Macros) (file : File) (part : Part) :
    readLine l ⟨mac, file, part⟩ "\x7d".toList =
      (readPart l file part [.mark '}']).map fun p => ⟨mac, p.1, p.2⟩ :=
  readLine_eq rfl (by simp)

theorem reads_struct (hmac : Underscored mac) {name : String} (hname : Kept mac name)
    {members : List (String × TypeName)}
    (h : ∀ q ∈ members, Kept mac q.1 ∧ ReadableType mac q.2) :
    Reads l ⟨mac, file, .outside⟩
      (l.declareStruct {} name (members.map fun q => ⟨q.1, l.typeName q.2⟩)).text
      ⟨mac, { file.declare name with
        structs := file.structs ++ [(name, members.map fun q => (q.1, l.typeName q.2))] },
        .outside⟩ := by
  have htext : (l.declareStruct {} name (members.map fun q => ⟨q.1, l.typeName q.2⟩)).text =
      (({} : Code).block ("struct " ++ name ++ " \x7b")
        ((members.map fun q => (⟨q.1, l.typeName q.2⟩ : Typed)).map (memberText l))
        (closeText l)).text ++ "\n" := by
    cases l <;> rfl
  have hplain : Plain ("struct " ++ name ++ " \x7b") := by
    simp only [plain_append]
    exact ⟨⟨rfl, hname.plain⟩, rfl⟩
  have hopen : readLine l ⟨mac, file, .outside⟩ ("struct " ++ name ++ " \x7b").toList =
      some ⟨mac, file.declare name, .members name []⟩ := by
    have hstruct : Kept mac "struct" := hmac.kept rfl (by decide)
    have hlist : ("struct " ++ name ++ " \x7b").toList =
        "struct".toList ++ ' ' :: (name.toList ++ ' ' :: ['{']) := by simp
    have hend : toks mac ['{'] = [.mark '{'] := rfl
    have htoks : toks mac ("struct " ++ name ++ " \x7b").toList =
        [.word "struct", .word name, .mark '{'] := by
      rw [hlist, toks_kept hstruct (stop_cons rfl _), toks_space, toks_kept hname (stop_cons rfl _),
        toks_space, hend]
    rw [readLine_word htoks]
    simp only [readPart, readOutside, bufferLine?_words, Option.map_some]
  have hmembers : List.Forall₂ (MemberLine l mac)
      ((members.map fun q => (⟨q.1, l.typeName q.2⟩ : Typed)).map (memberText l))
      (members.map fun q => (q.1, l.typeName q.2)) := by
    rw [List.map_map, List.forall₂_map_left_iff, List.forall₂_map_right_iff, List.forall₂_same]
    exact fun q hq => memberLine (h q hq).1 hmac (h q hq).2
  rw [htext]
  refine (reads_block hplain hopen (reads_members hmembers) (plain_closeText l) ?_).append
    (reads_blank _)
  rw [readLine_closeText]
  simp only [readPart, if_true, Option.map_some, List.nil_append]
  rfl

end structs

section routines

def paramText (l : Language) (p : Typed) : String :=
  match l with
  | .glsl | .hlsl => p.type ++ " " ++ p.name
  | .wgsl => p.name ++ ": " ++ p.type

theorem toks_param {p : Typed} (hname : Kept mac p.name) (htype : Kept mac p.type) {c : Char}
    (hc : isMark c = true) (rest : List Char) :
    toks mac ((paramText l p).toList ++ c :: rest) =
      (match l with
        | .glsl | .hlsl => [.word p.type, .word p.name]
        | .wgsl => [.word p.name, .mark ':', .word p.type]) ++ .mark c :: toks mac rest := by
  have hdeclared : toks mac ((p.type ++ " " ++ p.name).toList ++ c :: rest) =
      .word p.type :: .word p.name :: .mark c :: toks mac rest := by
    have hlist : (p.type ++ " " ++ p.name).toList ++ c :: rest =
        p.type.toList ++ ' ' :: (p.name.toList ++ c :: rest) := by simp
    rw [hlist, toks_kept htype (stop_cons rfl _), toks_space, toks_kept hname (stop_mark hc _),
      toks_mark hc]
  cases l with
  | glsl => exact hdeclared
  | hlsl => exact hdeclared
  | wgsl =>
    have hlist : (paramText .wgsl p).toList ++ c :: rest =
        p.name.toList ++ ':' :: ' ' :: (p.type.toList ++ c :: rest) := by simp [paramText]
    rw [hlist, toks_kept hname (stop_cons rfl _), toks_mark rfl, toks_space,
      toks_kept htype (stop_mark hc _), toks_mark hc]
    rfl

theorem plain_param {p : Typed} (hname : Kept mac p.name) (htype : Kept mac p.type) :
    Plain (paramText l p) := by
  cases l <;> simp only [paramText, plain_append]
  · exact ⟨⟨htype.plain, rfl⟩, hname.plain⟩
  · exact ⟨⟨htype.plain, rfl⟩, hname.plain⟩
  · exact ⟨⟨hname.plain, rfl⟩, htype.plain⟩

section params

variable {params : List Typed} (hne : params ≠ [])
  (hparams : ∀ p ∈ params, Kept mac p.name ∧ Kept mac p.type)
include hparams

include hne in
theorem readParams_toks (rest : List Char) :
    readParams l (toks mac ((", ".intercalate (params.map (paramText l))).toList ++ ')' :: rest)) =
      some (params.map fun p => (p.name, p.type), toks mac rest) := by
  induction params with
  | nil => exact absurd rfl hne
  | cons p params ih =>
    rw [List.forall_mem_cons] at hparams
    obtain ⟨⟨hname, htype⟩, hparams⟩ := hparams
    cases params with
    | nil =>
      rw [List.map_singleton, String.intercalate_singleton, toks_param hname htype rfl]
      cases l <;> simp [readParams]
    | cons q params =>
      have hlist : (", ".intercalate ((p :: q :: params).map (paramText l))).toList ++ ')' :: rest =
          (paramText l p).toList ++
            ',' :: ' ' :: ((", ".intercalate ((q :: params).map (paramText l))).toList ++
              ')' :: rest) := by
        simp [String.intercalate_cons_cons]
      have hrest := ih (List.cons_ne_nil _ _) hparams
      rw [hlist, toks_param hname htype rfl, toks_space]
      revert hrest
      generalize toks mac ((", ".intercalate ((q :: params).map (paramText l))).toList ++
        ')' :: rest) = ts
      intro hrest
      cases l <;> simp [readParams, hrest]

theorem plain_params : Plain (", ".intercalate (params.map (paramText l))) := by
  apply plain_intercalate ", " rfl
  intro s hs
  obtain ⟨p, hp, rfl⟩ := List.mem_map.mp hs
  exact plain_param (hparams p hp).1 (hparams p hp).2

end params

theorem readOutside_header {first name : String} {ts : List Token} {r : Routine}
    (h : readHeader l first name ts = some r) :
    readOutside l file (.word first :: .word name :: .mark '(' :: ts) =
      some (file.declare name, .body r) := by
  rw [readOutside, bufferLine?_words]
  cases l <;> simp [h]

structure Header (l : Language) (mac : Macros) (s : String) (r : Routine) : Prop where
  plain : Plain s
  read : ∃ first ts, toks mac s.toList = .word first :: .word r.name :: .mark '(' :: ts ∧
    readHeader l first r.name ts = some r

section headers

variable (hmac : Underscored mac) {name result : String} (hname : Kept mac name)
  {params : List Typed} (hne : params ≠ [])
  (hparams : ∀ p ∈ params, Kept mac p.name ∧ Kept mac p.type)
include hname hparams

theorem plain_header {first tail : String} (hfirst : Plain first) (htail : Plain tail) :
    Plain (first ++ " " ++ name ++ "(" ++ ", ".intercalate (params.map (paramText l)) ++ ")" ++
      tail) := by
  simp only [plain_append]
  exact ⟨⟨⟨⟨⟨⟨hfirst, rfl⟩, hname.plain⟩, rfl⟩, plain_params hparams⟩, rfl⟩, htail⟩

include hne in
theorem toks_header (tail : String) {first : String} (hfirst : Kept mac first) :
    ∃ ts, toks mac (first ++ " " ++ name ++ "(" ++
        ", ".intercalate (params.map (paramText l)) ++ ")" ++ tail).toList =
          .word first :: .word name :: .mark '(' :: ts ∧
      readParams l ts = some (params.map fun p => (p.name, p.type), toks mac tail.toList) := by
  refine ⟨_, ?_, readParams_toks hne hparams tail.toList⟩
  have hlist : (first ++ " " ++ name ++ "(" ++ ", ".intercalate (params.map (paramText l)) ++ ")" ++
      tail).toList = first.toList ++ ' ' :: (name.toList ++
        '(' :: ((", ".intercalate (params.map (paramText l))).toList ++ ')' :: tail.toList)) := by
    simp
  rw [hlist, toks_kept hfirst (stop_cons rfl _), toks_space, toks_kept hname (stop_cons rfl _),
    toks_mark rfl]

include hne hmac in
theorem header_typed (hl : l ≠ .wgsl)
    (hresult : result = "" ∨ Kept mac result ∧ result ≠ "void") :
    Header l mac (l.functionLine name params result)
      ⟨name, params.map fun p => (p.name, p.type), result, []⟩ := by
  have hbrace : toks mac " \x7b".toList = [.mark '{'] := rfl
  obtain ⟨first, hfirst, hkept, hback⟩ : ∃ first, first = (if result = "" then "void" else result) ∧
      Kept mac first ∧ (if first = "void" then "" else first) = result := by
    rcases hresult with rfl | ⟨hkept, hvoid⟩
    · exact ⟨_, rfl, hmac.kept rfl (by decide), rfl⟩
    · exact ⟨result, by rw [if_neg hkept.ne_empty], hkept, if_neg hvoid⟩
  obtain ⟨ts, htoks, hread⟩ := toks_header (l := l) hname hne hparams " \x7b" hkept
  have htext : l.functionLine name params result = first ++ " " ++ name ++ "(" ++
      ", ".intercalate (params.map (paramText l)) ++ ")" ++ " \x7b" := by
    rw [hfirst, String.append_assoc]
    cases l with
    | glsl | hlsl => rfl
    | wgsl => exact absurd rfl hl
  rw [htext]
  refine ⟨plain_header hname hparams hkept.plain rfl, first, ts, htoks, ?_⟩
  rw [readHeader.eq_def, hread, hbrace]
  cases l with
  | glsl | hlsl => simp only [hback]
  | wgsl => exact absurd rfl hl

omit hname hparams in
theorem toks_arrow (hresult : Kept mac result) :
    toks mac (" -> " ++ result ++ " \x7b").toList = [.arrow, .word result, .mark '{'] := by
  have hlist : (" -> " ++ result ++ " \x7b").toList =
      ' ' :: '-' :: '>' :: ' ' :: (result.toList ++ [' ', '{']) := by simp
  have hrest : toks mac (result.toList ++ [' ', '{']) = [.word result, .mark '{'] :=
    toks_kept hresult (stop_cons rfl _)
  rw [hlist, ← hrest]
  rfl

include hne hmac in
theorem header_fn (hresult : result = "" ∨ Kept mac result) :
    Header .wgsl mac (Language.wgsl.functionLine name params result)
      ⟨name, params.map fun p => (p.name, p.type), result, []⟩ := by
  have hfn : Kept mac "fn" := hmac.kept rfl (by decide)
  have hbrace : toks mac " \x7b".toList = [.mark '{'] := rfl
  have htext : ∀ tail, (if result = "" then "" else " -> " ++ result) ++ " \x7b" = tail →
      Language.wgsl.functionLine name params result = "fn" ++ " " ++ name ++ "(" ++
        ", ".intercalate (params.map (paramText .wgsl)) ++ ")" ++ tail := by
    rintro _ rfl
    rw [← String.append_assoc]
    rfl
  rcases hresult with rfl | hkept
  · obtain ⟨ts, htoks, hread⟩ := toks_header (l := .wgsl) hname hne hparams " \x7b" hfn
    rw [htext " \x7b" rfl]
    refine ⟨plain_header hname hparams rfl rfl, _, ts, htoks, ?_⟩
    rw [readHeader.eq_def, hread, hbrace]
    rfl
  · obtain ⟨ts, htoks, hread⟩ :=
      toks_header (l := .wgsl) hname hne hparams (" -> " ++ result ++ " \x7b") hfn
    have hplain : Plain (" -> " ++ result ++ " \x7b") := by
      simp only [plain_append]
      exact ⟨⟨rfl, hkept.plain⟩, rfl⟩
    rw [htext (" -> " ++ result ++ " \x7b") (by rw [if_neg hkept.ne_empty])]
    refine ⟨plain_header hname hparams rfl hplain, _, ts, htoks, ?_⟩
    rw [readHeader.eq_def, hread, toks_arrow hkept]
    rfl

include hne hmac in
theorem header (hresult : result = "" ∨ Kept mac result ∧ (l ≠ .wgsl → result ≠ "void")) :
    Header l mac (l.functionLine name params result)
      ⟨name, params.map fun p => (p.name, p.type), result, []⟩ := by
  by_cases hl : l = .wgsl
  · subst hl
    exact header_fn hmac hname hne hparams (hresult.imp_right And.left)
  · exact header_typed hmac hname hne hparams hl (hresult.imp_right fun h => ⟨h.1, h.2 hl⟩)

end headers

theorem reads_routine {name result : String} {params : List (String × String)} {line : String}
    (h : Header l mac line ⟨name, params, result, []⟩) {ss : List String} {sts : List Statement}
    (hbody : List.Forall₂ (Line l mac) ss sts) :
    Reads l ⟨mac, file, .outside⟩ ((({} : Code).block line ss "\x7d").blank).text
      ⟨mac, { file.declare name with
        routines := file.routines ++ [⟨name, params, result, sts⟩] }, .outside⟩ := by
  obtain ⟨first, ts, htoks, hread⟩ := h.read
  have hopen : readLine l ⟨mac, file, .outside⟩ line.toList =
      some ⟨mac, file.declare name, .body ⟨name, params, result, []⟩⟩ := by
    rw [readLine_word htoks]
    simp only [readPart, readOutside_header hread, Option.map_some]
  have hplain : Plain "\x7d" := rfl
  have hclose : ∀ r : Routine, readLine l ⟨mac, file.declare name, .body r⟩ "\x7d".toList =
      some ⟨mac, { file.declare name with routines := file.routines ++ [r] }, .outside⟩ := by
    intro r
    rw [readLine_brace]
    simp only [readPart, if_true, Option.map_some]
    rfl
  exact (reads_block h.plain hopen (reads_body hbody) hplain (hclose _)).append (reads_blank _)

end routines

section constants

variable (hmac : Underscored mac) {name : String}
include hmac

omit hmac in
theorem isWord_decimal (n : Nat) : IsWord (toString n) := by
  rw [IsWord, decimal_toList]
  exact ⟨Nat.toDigits_ne_nil, isWordChar_toDigits (by decide) (by decide) n⟩

theorem lookup_decimal (n : Nat) : mac.lookup (toString n) = none := by
  obtain ⟨c, hc, hstart⟩ := decimal_head n
  exact hmac.lookup_eq_none (not_identifier_of_digit hc hstart)

omit hmac in
theorem uint_eq_decimal (hl : l ≠ .wgsl) (n : UInt32) : l.uint n = toString n.toNat := by
  cases l with
  | glsl | hlsl => exact String.append_empty
  | wgsl => exact absurd rfl hl

omit hmac in
theorem reads_define (hl : l ≠ .wgsl) (hname : Text.isIdentifier name = true) (value : UInt32)
    (st : State) :
    Reads l st ("#define " ++ name ++ " " ++ toString value.toNat ++ "\n")
      ⟨st.macros ++ [(name, toString value.toNat)], st.file.declare name, st.part⟩ := by
  have hword := IsWord.of_identifier hname
  have hdecimal := isWord_decimal value.toNat
  have hlist : ("#define " ++ name ++ " " ++ toString value.toNat).toList =
      '#' :: ("define".toList ++
        ' ' :: (name.toList ++ ' ' :: ((toString value.toNat).toList ++ []))) := by simp
  have hdefine : IsWord "define" := .of_identifier rfl
  have htokens : tokens ("#define " ++ name ++ " " ++ toString value.toNat).toList =
      [.mark '#', .word "define", .word name, .word (toString value.toNat)] := by
    rw [hlist, tokens_mark rfl, tokens_word hdefine (stop_cons rfl _), tokens_space,
      tokens_word hword (stop_cons rfl _), tokens_space, tokens_word hdecimal stop_nil]
    rfl
  have hvalue : (literal? l (toString value.toNat)).isSome = true := by
    rw [← uint_eq_decimal hl, literal?_uint]
    rfl
  refine reads_line ?_ ?_
  · simp only [plain_append]
    exact ⟨⟨⟨rfl, hword.plain⟩, rfl⟩, hdecimal.plain⟩
  · rw [readLine]
    simp only [htokens, directive?, hl, ne_eq, not_false_eq_true, hname, hvalue, and_self, if_true,
      List.cons_ne_nil, if_false]

theorem reads_const (hname : Kept mac name) (value : UInt32) :
    Reads .wgsl ⟨mac, file, .outside⟩
      ("const " ++ name ++ ": u32 = " ++ Language.wgsl.uint value ++ ";" ++ "\n")
      ⟨mac, { file.declare name with constants := file.constants ++ [(name, value)] },
        .outside⟩ := by
  have hconst : Kept mac "const" := hmac.kept rfl (by decide)
  have hu32 : Kept mac "u32" := hmac.kept rfl (by decide)
  have hvalue := hmac.lookup_eq_none (uint_not_identifier .wgsl value)
  have hlist : ("const " ++ name ++ ": u32 = " ++ Language.wgsl.uint value ++ ";").toList =
      "const".toList ++ ' ' :: (name.toList ++ ':' :: ' ' :: ("u32".toList ++
        ' ' :: '=' :: ' ' :: ((Language.wgsl.uint value).toList ++ [';']))) := by simp
  have hend : toks mac [';'] = [.mark ';'] := rfl
  have htoks : toks mac ("const " ++ name ++ ": u32 = " ++ Language.wgsl.uint value ++ ";").toList =
      [.word "const", .word name, .mark ':', .word "u32", .mark '=',
        .word (Language.wgsl.uint value), .mark ';'] := by
    rw [hlist, toks_kept hconst (stop_cons rfl _), toks_space, toks_kept hname (stop_cons rfl _),
      toks_mark rfl, toks_space, toks_kept hu32 (stop_cons rfl _), toks_space, toks_mark rfl,
      toks_space, toks_word (isWord_uint .wgsl value) hvalue (stop_cons rfl _), hend]
  refine reads_line ?_ ?_
  · simp only [plain_append]
    exact ⟨⟨⟨⟨rfl, hname.plain⟩, rfl⟩, (isWord_uint .wgsl value).plain⟩, rfl⟩
  · rw [readLine_word htoks]
    simp only [readPart, readOutside, bufferLine?_words, literal?_uint, Option.map_some]

end constants

section handles

def makerRoutine (name : String) : Routine :=
  ⟨name ++ "Ref_new", [("offset", "uint")], name ++ "Ref",
    [.declare "r" (name ++ "Ref"), .assign (.member (.name "r") "offset") (.name "offset"),
      .finish (.name "r")]⟩

theorem not_handle_name {x : String} (hx : x.toList.getLast? ≠ some 'f') (name : String) :
    name ++ "Ref" ≠ x := by
  rintro rfl
  simp at hx

theorem reads_maker (hmac : Underscored mac) {name : String} (href : Kept mac (name ++ "Ref"))
    (hmaker : Kept mac (name ++ "Ref_new")) :
    Reads .hlsl ⟨mac, file, .outside⟩
      ((({} : Code).block
        (Language.hlsl.functionLine (name ++ "Ref_new") [⟨"offset", "uint"⟩] (name ++ "Ref"))
        [name ++ "Ref r;", "r.offset = offset;", "return r;"] "\x7d").blank).text
      ⟨mac, { file.declare (name ++ "Ref_new") with
        routines := file.routines ++ [makerRoutine name] }, .outside⟩ := by
  have hr : Kept mac "r" := hmac.kept rfl (by decide)
  have hoffset : Kept mac "offset" := hmac.kept rfl (by decide)
  have huint : Kept mac "uint" := hmac.kept rfl (by decide)
  have hvoid : name ++ "Ref" ≠ "void" := not_handle_name (by decide) name
  have hreturn : name ++ "Ref" ≠ "return" := not_handle_name (by decide) name
  have hparams : ∀ p ∈ [(⟨"offset", "uint"⟩ : Typed)], Kept mac p.name ∧ Kept mac p.type :=
    List.forall_mem_singleton.mpr ⟨hoffset, huint⟩
  have hheader := header (l := .hlsl) hmac hmaker (List.cons_ne_nil _ _) hparams
    (.inr ⟨href, fun _ => hvoid⟩)
  have hdeclare : Line .hlsl mac (name ++ "Ref r;") (.declare "r" (name ++ "Ref")) := by
    have htext : name ++ "Ref r;" = name ++ "Ref" ++ " " ++ "r" ++ ";" := by
      simp [← String.toList_inj]
    rw [htext]
    exact line_declare (l := .hlsl) nofun hr href hreturn
  have hassign : Line .hlsl mac "r.offset = offset;"
      (.assign (.member (.name "r") "offset") (.name "offset")) := by
    have htext : "r.offset = offset;" = "r" ++ "." ++ "offset" ++ " = " ++ "offset" ++ ";" := rfl
    have hlist : "r.offset = offset;".toList = "r".toList ++ '.' :: "offset = offset;".toList := rfl
    have htarget := ((operand_name (l := .hlsl) hr).member hoffset).whole
    have hread := readEffect_assign htarget (operand_name hoffset).whole
    rw [← htext] at hread
    exact line_of_effect rfl hr (by decide) rfl hlist hread
  have hfinish : Line .hlsl mac "return r;" (.finish (.name "r")) :=
    line_return hmac (operand_name hr).whole
  exact reads_routine hheader (.cons hdeclare (.cons hassign (.cons hfinish .nil)))

end handles

section buffers

theorem readOutside_block {ts : List Token} {x : String} {writable : Bool}
    (h : bufferLine? .glsl ts = some (x, writable)) :
    readOutside .glsl file ts = some (file.declare x, .block writable) := by
  rw [readOutside.eq_def, h]
  rfl

theorem readOutside_buffer (hl : l ≠ .glsl) {ts : List Token} {writable : Bool}
    (h : bufferLine? l ts = some (file.buffer, writable)) :
    readOutside l file ts = some ({ file.declare file.buffer with writable }, .outside) := by
  rw [readOutside.eq_def, h]
  simp only [if_neg hl, if_true]

variable (hmac : Underscored mac) {buffer : String} (hbuffer : Kept mac buffer)
include hmac

theorem toks_number (n : Nat) {c : Char} (hc : isMark c = true) (cs : List Char) :
    toks mac ((toString n).toList ++ c :: cs) = .word (toString n) :: .mark c :: toks mac cs := by
  rw [toks_word (isWord_decimal n) (lookup_decimal hmac n) (stop_mark hc _), toks_mark hc]

omit hmac in
theorem plain_number (n : Nat) : Plain (toString n) := (isWord_decimal n).plain

theorem toks_layout (group binding : Nat) (cs : List Char) :
    toks mac ("layout(set = ".toList ++ ((toString group).toList ++ (", binding = ".toList ++
        ((toString binding).toList ++ (") ".toList ++ cs))))) =
      .word "layout" :: .mark '(' :: .word "set" :: .mark '=' :: .word (toString group) ::
        .mark ',' :: .word "binding" :: .mark '=' :: .word (toString binding) :: .mark ')' ::
          toks mac cs := by
  have hlayout : Kept mac "layout" := hmac.kept rfl (by decide)
  have hset : Kept mac "set" := hmac.kept rfl (by decide)
  have hbinding : Kept mac "binding" := hmac.kept rfl (by decide)
  have hfirst : ∀ cs, "layout(set = ".toList ++ cs =
      "layout".toList ++ '(' :: ("set".toList ++ ' ' :: '=' :: ' ' :: cs) := fun _ => rfl
  have hsecond : ∀ cs, ", binding = ".toList ++ cs =
      ',' :: ' ' :: ("binding".toList ++ ' ' :: '=' :: ' ' :: cs) := fun _ => rfl
  have hthird : ∀ cs, ") ".toList ++ cs = ')' :: ' ' :: cs := fun _ => rfl
  rw [hfirst, toks_kept hlayout (stop_cons rfl _), toks_mark rfl, toks_kept hset (stop_cons rfl _),
    toks_space, toks_mark rfl, toks_space, hsecond, toks_number hmac group rfl, toks_space,
    toks_kept hbinding (stop_cons rfl _), toks_space, toks_mark rfl, toks_space, hthird,
    toks_number hmac binding rfl, toks_space]

omit hmac in
theorem bufferLine?_layout (g b x : String) (writable : Bool) :
    bufferLine? .glsl (.word "layout" :: .mark '(' :: .word "set" :: .mark '=' :: .word g ::
      .mark ',' :: .word "binding" :: .mark '=' :: .word b :: .mark ')' ::
        ((if writable then [] else [.word "readonly"]) ++ [.word "buffer", .word x, .mark '{'])) =
      some (x, writable) := by
  cases writable <;> rfl

theorem toks_access (writable : Bool) (cs : List Char) :
    toks mac ((if writable then "" else "readonly ").toList ++ cs) =
      (if writable then [] else [.word "readonly"]) ++ toks mac cs := by
  have hreadonly : Kept mac "readonly" := hmac.kept rfl (by decide)
  cases writable with
  | true => rfl
  | false => exact toks_kept hreadonly (stop_cons rfl _)

theorem readLine_layout (hblock : Kept mac (buffer ++ "Buf")) (group binding : Nat)
    (writable : Bool) :
    readLine .glsl ⟨mac, file, .outside⟩
      ("layout(set = " ++ toString group ++ ", binding = " ++ toString binding ++ ") " ++
        (if writable then "" else "readonly ") ++ "buffer " ++ buffer ++ "Buf \x7b").toList =
      some ⟨mac, file.declare (buffer ++ "Buf"), .block writable⟩ := by
  have hkey : Kept mac "buffer" := hmac.kept rfl (by decide)
  have hbrace : toks mac ['{'] = [.mark '{'] := rfl
  have hend : toks mac ("buffer".toList ++ ' ' :: ((buffer ++ "Buf").toList ++ ' ' :: ['{'])) =
      [.word "buffer", .word (buffer ++ "Buf"), .mark '{'] := by
    rw [toks_kept hkey (stop_cons rfl _), toks_space, toks_kept hblock (stop_cons rfl _),
      toks_space, hbrace]
  have htoks := toks_layout hmac group binding ((if writable then "" else "readonly ").toList ++
    ("buffer".toList ++ ' ' :: ((buffer ++ "Buf").toList ++ ' ' :: ['{'])))
  rw [toks_access hmac, hend] at htoks
  have hlist : ("layout(set = " ++ toString group ++ ", binding = " ++ toString binding ++ ") " ++
      (if writable then "" else "readonly ") ++ "buffer " ++ buffer ++ "Buf \x7b").toList =
      "layout(set = ".toList ++ ((toString group).toList ++ (", binding = ".toList ++
        ((toString binding).toList ++ (") ".toList ++
          ((if writable then "" else "readonly ").toList ++
            ("buffer".toList ++ ' ' :: ((buffer ++ "Buf").toList ++ ' ' :: ['{']))))))) := by
    simp
  rw [← hlist] at htoks
  have hline := @readOutside_block file _ _ _
    (bufferLine?_layout (toString group) (toString binding) (buffer ++ "Buf") writable)
  rw [readLine_word htoks]
  simp only [readPart, hline, Option.map_some]

include hbuffer

theorem reads_layout (hblock : Kept mac (buffer ++ "Buf")) (hfile : file.buffer = buffer)
    (b : Binding) (writable : Bool) :
    Reads .glsl ⟨mac, file, .outside⟩ (Language.glsl.declareBuffer {} buffer b writable).text
      ⟨mac, { (file.declare (buffer ++ "Buf")).declare buffer with writable }, .outside⟩ := by
  have huint : Kept mac "uint" := hmac.kept rfl (by decide)
  have hopen : Plain ("layout(set = " ++ toString b.group.toNat ++ ", binding = " ++
      toString b.binding.toNat ++ ") " ++ (if writable then "" else "readonly ") ++ "buffer " ++
      buffer ++ "Buf \x7b") := by
    have haccess : Plain (if writable then "" else "readonly ") := by cases writable <;> rfl
    simp only [plain_append]
    exact ⟨⟨⟨⟨⟨⟨⟨⟨rfl, plain_number _⟩, rfl⟩, plain_number _⟩, rfl⟩, haccess⟩, rfl⟩,
      hbuffer.plain⟩, rfl⟩
  have hbody : Reads .glsl ⟨mac, file.declare (buffer ++ "Buf"), .block writable⟩
      (String.join (["uint " ++ buffer ++ "[];"].map fun s => "    " ++ s ++ "\n"))
      ⟨mac, (file.declare (buffer ++ "Buf")).declare buffer, .block writable⟩ := by
    have hplain : Plain ("    " ++ ("uint " ++ buffer ++ "[];")) := by
      simp only [plain_append]
      exact ⟨rfl, ⟨rfl, hbuffer.plain⟩, rfl⟩
    have hlist : ("uint " ++ buffer ++ "[];").toList =
        "uint".toList ++ ' ' :: (buffer.toList ++ ['[', ']', ';']) := by simp
    have hend : toks mac ['[', ']', ';'] = [.mark '[', .mark ']', .mark ';'] := rfl
    have htoks : toks mac ("    " ++ ("uint " ++ buffer ++ "[];")).toList =
        [.word "uint", .word buffer, .mark '[', .mark ']', .mark ';'] := by
      rw [toks_indent, hlist, toks_kept huint (stop_cons rfl _), toks_space,
        toks_kept hbuffer (stop_cons rfl _), hend]
    have hjoin : String.join (["uint " ++ buffer ++ "[];"].map fun s => "    " ++ s ++ "\n") =
        "    " ++ ("uint " ++ buffer ++ "[];") ++ "\n" := by simp
    rw [hjoin]
    refine reads_line hplain ?_
    rw [readLine_word htoks]
    have hclose : [Token.word "uint", .word buffer, .mark '[', .mark ']', .mark ';'] ≠
        closing .glsl := by simp [closing]
    have hname : (file.declare (buffer ++ "Buf")).buffer = buffer := hfile
    simp only [readPart, if_neg hclose, hname, if_true, Option.map_some]
  refine reads_block hopen (readLine_layout hmac hblock _ _ writable) hbody
    (plain_closeText .glsl) ?_
  refine (readLine_closeText (l := .glsl) _ _ _).trans ?_
  simp only [readPart, if_true, Option.map_some]

theorem toks_register {type slot : String} (htype : Kept mac type) (hslot : Kept mac slot)
    {space : String} (hspace : Kept mac space) :
    toks mac (type ++ "<uint> " ++ buffer ++ " : register(" ++ slot ++ ", " ++ space ++
        ");").toList =
      [.word type, .mark '<', .word "uint", .mark '>', .word buffer, .mark ':', .word "register",
        .mark '(', .word slot, .mark ',', .word space, .mark ')', .mark ';'] := by
  have huint : Kept mac "uint" := hmac.kept rfl (by decide)
  have hregister : Kept mac "register" := hmac.kept rfl (by decide)
  have hlist : (type ++ "<uint> " ++ buffer ++ " : register(" ++ slot ++ ", " ++ space ++
      ");").toList = type.toList ++ '<' :: ("uint".toList ++ ('>' :: ' ' :: (buffer.toList ++
        ' ' :: ':' :: ' ' :: ("register".toList ++ '(' :: (slot.toList ++ ',' :: ' ' ::
          (space.toList ++ [')', ';'])))))) := by simp
  have hend : toks mac [')', ';'] = [.mark ')', .mark ';'] := rfl
  rw [hlist, toks_kept htype (stop_cons rfl _), toks_angle huint, toks_kept huint (stop_cons rfl _),
    toks_close, toks_kept hbuffer (stop_cons rfl _), toks_space, toks_mark rfl, toks_space,
    toks_kept hregister (stop_cons rfl _), toks_mark rfl, toks_kept hslot (stop_cons rfl _),
    toks_mark rfl, toks_space, toks_kept hspace (stop_cons rfl _), hend]

theorem reads_register (hfile : file.buffer = buffer) {type slot space : String}
    (htype : Kept mac type) (hslot : Kept mac slot) (hspace : Kept mac space) {writable : Bool}
    (hline : bufferLine? .hlsl [.word type, .mark '<', .word "uint", .mark '>', .word buffer,
      .mark ':', .word "register", .mark '(', .word slot, .mark ',', .word space, .mark ')',
      .mark ';'] = some (buffer, writable)) {s : String}
    (hs : s = type ++ "<uint> " ++ buffer ++ " : register(" ++ slot ++ ", " ++ space ++ ");") :
    Reads .hlsl ⟨mac, file, .outside⟩ (s ++ "\n")
      ⟨mac, { file.declare buffer with writable }, .outside⟩ := by
  subst hfile hs
  refine reads_line ?_ ?_
  · simp only [plain_append]
    exact ⟨⟨⟨⟨⟨⟨⟨htype.plain, rfl⟩, hbuffer.plain⟩, rfl⟩, hslot.plain⟩, rfl⟩, hspace.plain⟩, rfl⟩
  · rw [readLine_word (toks_register hmac hbuffer htype hslot hspace)]
    simp only [readPart, readOutside_buffer (l := .hlsl) (by decide) hline, Option.map_some]

theorem reads_storage (hfile : file.buffer = buffer) (group binding : Nat) {access : String}
    (haccess : Kept mac access) {writable : Bool}
    (hline : access = if writable then "read_write" else "read") :
    Reads .wgsl ⟨mac, file, .outside⟩
      ("@group(" ++ toString group ++ ") @binding(" ++ toString binding ++ ") var<storage, " ++
        access ++ "> " ++ buffer ++ ": array<u32>;" ++ "\n")
      ⟨mac, { file.declare buffer with writable }, .outside⟩ := by
  subst hfile
  have hgroup : Kept mac "group" := hmac.kept rfl (by decide)
  have hbinding : Kept mac "binding" := hmac.kept rfl (by decide)
  have hvar : Kept mac "var" := hmac.kept rfl (by decide)
  have hstorage : Kept mac "storage" := hmac.kept rfl (by decide)
  have harray : Kept mac "array" := hmac.kept rfl (by decide)
  have hu32 : Kept mac "u32" := hmac.kept rfl (by decide)
  have hlist : ("@group(" ++ toString group ++ ") @binding(" ++ toString binding ++
      ") var<storage, " ++ access ++ "> " ++ file.buffer ++ ": array<u32>;").toList =
      '@' :: ("group".toList ++ '(' :: ((toString group).toList ++ ')' :: ' ' :: '@' ::
        ("binding".toList ++ '(' :: ((toString binding).toList ++ ')' :: ' ' ::
          ("var".toList ++ '<' :: ("storage".toList ++ (',' :: ' ' :: (access.toList ++
            '>' :: ' ' :: (file.buffer.toList ++ ':' :: ' ' :: ("array".toList ++ '<' ::
              ("u32".toList ++ ['>', ';']))))))))))) := by simp
  have hend : toks mac ['>', ';'] = [.mark '>', .mark ';'] := rfl
  have htoks : toks mac ("@group(" ++ toString group ++ ") @binding(" ++ toString binding ++
      ") var<storage, " ++ access ++ "> " ++ file.buffer ++ ": array<u32>;").toList =
      [.mark '@', .word "group", .mark '(', .word (toString group), .mark ')', .mark '@',
        .word "binding", .mark '(', .word (toString binding), .mark ')', .word "var", .mark '<',
        .word "storage", .mark ',', .word access, .mark '>', .word file.buffer, .mark ':',
        .word "array", .mark '<', .word "u32", .mark '>', .mark ';'] := by
    rw [hlist, toks_mark rfl, toks_kept hgroup (stop_cons rfl _), toks_mark rfl,
      toks_number hmac group rfl, toks_space, toks_mark rfl, toks_kept hbinding (stop_cons rfl _),
      toks_mark rfl, toks_number hmac binding rfl, toks_space, toks_kept hvar (stop_cons rfl _),
      toks_angle hstorage, toks_kept hstorage (stop_cons rfl _), toks_mark rfl, toks_space,
      toks_kept haccess (stop_cons rfl _), toks_close, toks_kept hbuffer (stop_cons rfl _),
      toks_mark rfl, toks_space, toks_kept harray (stop_cons rfl _), toks_angle hu32,
      toks_kept hu32 (stop_cons rfl _), hend]
  have hread : bufferLine? .wgsl [.mark '@', .word "group", .mark '(', .word (toString group),
      .mark ')', .mark '@', .word "binding", .mark '(', .word (toString binding), .mark ')',
      .word "var", .mark '<', .word "storage", .mark ',', .word access, .mark '>',
      .word file.buffer, .mark ':', .word "array", .mark '<', .word "u32", .mark '>', .mark ';'] =
      some (file.buffer, writable) := by
    subst hline
    cases writable <;> rfl
  refine reads_line ?_ ?_
  · simp only [plain_append]
    exact ⟨⟨⟨⟨⟨⟨⟨⟨rfl, plain_number _⟩, rfl⟩, plain_number _⟩, rfl⟩, haccess.plain⟩, rfl⟩,
      hbuffer.plain⟩, rfl⟩
  · rw [readLine_eq htoks (by simp)]
    simp only [readPart, readOutside_buffer (l := .wgsl) (by decide) hread, Option.map_some]

end buffers

end declarations

end Listing

def Function.routine (f : Function) (l : Language) (buffer : String)
    (constant : String → Listing.Term) : Listing.Routine :=
  ⟨f.name, (l.params f).map fun q => (q.name, q.type), l.resultType f,
    f.body.map (Listing.statement l buffer constant)⟩

namespace Listing

section items

variable (l : Language) (p : Program)

def constantTerm (name : String) : Term :=
  match l with
  | .glsl | .hlsl => .literal ((p.constant? name).getD 0)
  | .wgsl => .name name

def routine (f : Function) : Routine := f.routine l p.buffer (constantTerm l p)

def itemMacros : Item → Macros
  | .constant name value =>
    match l with
    | .glsl | .hlsl => [(name, toString value.toNat)]
    | .wgsl => []
  | _ => []

def itemStructs : Item → List (String × List (String × String))
  | .handle name => [(name ++ "Ref", [("offset", l.uintType)])]
  | .struct name members => [(name, members.map fun q => (q.1, l.typeName q.2))]
  | _ => []

def itemConstants : Item → List (String × UInt32)
  | .constant name value =>
    match l with
    | .glsl | .hlsl => []
    | .wgsl => [(name, value)]
  | _ => []

def itemRoutines : Item → List Routine
  | .handle name =>
    match l with
    | .hlsl => [makerRoutine name]
    | .glsl | .wgsl => []
  | .function f => [routine l p f]
  | _ => []

def writableAfter : Bool → Item → Bool
  | _, .buffer _ writable => writable
  | writable, _ => writable

def fileAfter (file : File) (items : List Item) : File where
  buffer := file.buffer
  writable := items.foldl writableAfter file.writable
  names := file.names ++ items.flatMap (l.itemDeclares p.buffer)
  structs := file.structs ++ items.flatMap (itemStructs l)
  constants := file.constants ++ items.flatMap (itemConstants l)
  routines := file.routines ++ items.flatMap (itemRoutines l p)

end items

end Listing

def Item.isRemark : Item → Bool
  | .comment _ | .omitted .. => true
  | _ => false

def Item.Plain : Item → Prop
  | .comment text => Listing.Plain text
  | .omitted name reason => Listing.Plain name ∧ Listing.Plain reason
  | _ => True

def Function.Readable (f : Function) (l : Language) (mac : Listing.Macros) (buffer : String)
    (constant : String → Listing.Term) : Prop :=
  Listing.Kept mac f.name ∧
    (∀ q ∈ l.params f, Listing.Kept mac q.name ∧ Listing.Kept mac q.type) ∧
    (f.result = none ∨
      Listing.Kept mac (l.resultType f) ∧ (l ≠ .wgsl → l.resultType f ≠ "void")) ∧
    ∀ s ∈ f.body, s.Readable l mac buffer constant

def Item.Readable (l : Language) (p : Program) (mac : Listing.Macros) : Item → Prop
  | .comment _ | .omitted .. | .blank => True
  | .buffer .. =>
    Listing.Kept mac p.buffer ∧ (l = .glsl → Listing.Kept mac (p.buffer ++ "Buf")) ∧
      (l = .wgsl → Listing.Kept mac "read_write")
  | .handle name =>
    Listing.Kept mac (name ++ "Ref") ∧ (l = .hlsl → Listing.Kept mac (name ++ "Ref_new"))
  | .struct name members =>
    Listing.Kept mac name ∧ ∀ q ∈ members, Listing.Kept mac q.1 ∧ Listing.ReadableType mac q.2
  | .constant name _ =>
    Text.isIdentifier name = true ∧ (l = .wgsl → mac.lookup name = none)
  | .function f => f.Readable l mac p.buffer (Listing.constantTerm l p)

namespace Listing

section programs

variable {p : Program} {mac : Macros} {file : File} (hmac : Underscored mac)
  (hfile : file.buffer = p.buffer)
include hmac hfile

omit hmac hfile in
theorem reads_remark {s : String} (hs : Plain s) (st : State) :
    Reads l st ("// " ++ s ++ "\n") st := by
  have hplain : Plain ("// " ++ s) := plain_append.mpr ⟨rfl, hs⟩
  refine reads_line hplain ?_
  rw [String.toList_append]
  rfl

omit hmac hfile in
theorem line_text (s : String) : (({} : Code).line s).text = s ++ "\n" := by
  simp [Code.line]

omit hmac hfile in
theorem itemMacros_remark {item : Item} (h : item.isRemark = true ∨ item = .blank) :
    itemMacros l item = [] := by
  rcases h with h | rfl
  · cases item <;> first | rfl | cases h
  · rfl

section after

omit hmac hfile

theorem fileAfter_remark {item : Item} (h : item.isRemark = true ∨ item = .blank) :
    fileAfter l p file [item] = file := by
  rcases h with h | rfl
  · cases item with
    | comment | omitted =>
      simp [fileAfter, itemStructs, itemConstants, itemRoutines, writableAfter,
        Language.itemDeclares, Item.declared?]
    | _ => cases h
  · simp [fileAfter, itemStructs, itemConstants, itemRoutines, writableAfter,
      Language.itemDeclares, Item.declared?]

theorem fileAfter_buffer (b : Binding) (writable : Bool) :
    fileAfter l p file [.buffer b writable] =
      { file with
        writable := writable
        names := file.names ++ l.itemDeclares p.buffer (.buffer b writable) } := by
  simp [fileAfter, itemStructs, itemConstants, itemRoutines, writableAfter]

theorem fileAfter_handle (name : String) :
    fileAfter l p file [.handle name] =
      { file with
        names := file.names ++ (name ++ "Ref") :: l.extraNames name
        structs := file.structs ++ [(name ++ "Ref", [("offset", l.uintType)])]
        routines := file.routines ++ itemRoutines l p (.handle name) } := by
  simp [fileAfter, itemStructs, itemConstants, writableAfter, Language.itemDeclares,
    Language.handleNames_eq]

theorem fileAfter_struct (name : String) (members : List (String × TypeName)) :
    fileAfter l p file [.struct name members] =
      { file.declare name with
        structs := file.structs ++ [(name, members.map fun q => (q.1, l.typeName q.2))] } := by
  simp [fileAfter, itemStructs, itemConstants, itemRoutines, writableAfter,
    Language.itemDeclares, Item.declared?, File.declare]

theorem fileAfter_constant (name : String) (value : UInt32) :
    fileAfter l p file [.constant name value] =
      { file.declare name with
        constants := file.constants ++ itemConstants l (.constant name value) } := by
  simp [fileAfter, itemStructs, itemRoutines, writableAfter, Language.itemDeclares,
    Item.declared?, File.declare]

theorem fileAfter_function (f : Function) :
    fileAfter l p file [.function f] =
      { file.declare f.name with routines := file.routines ++ [routine l p f] } := by
  simp [fileAfter, itemStructs, itemConstants, itemRoutines, writableAfter,
    Language.itemDeclares, Item.declared?, File.declare]

end after

theorem reads_buffer {b : Binding} {writable : Bool}
    (h : (Item.buffer b writable).Readable l p mac) :
    Reads l ⟨mac, file, .outside⟩ (l.itemText p.buffer (.buffer b writable))
      ⟨mac, fileAfter l p file [.buffer b writable], .outside⟩ := by
  obtain ⟨hbuffer, hblock, haccess⟩ := h
  rw [fileAfter_buffer]
  cases l with
  | glsl =>
    have hread := reads_layout hmac hbuffer (hblock rfl) hfile b writable
    simpa [Language.itemText, Language.item, Language.itemDeclares, File.declare] using hread
  | hlsl =>
    have hspace := kept_decimal hmac "space" rfl (by decide) b.group.toNat
    cases writable with
    | true =>
      have htype : Kept mac "RWStructuredBuffer" := hmac.kept rfl (by decide)
      have hslot := kept_decimal hmac "u" rfl (by decide) b.binding.toNat
      simp only [Language.itemText, Language.item, Language.declareBuffer, if_true, line_text]
      exact reads_register hmac hbuffer hfile htype hslot hspace rfl (by simp [← String.toList_inj])
    | false =>
      have htype : Kept mac "StructuredBuffer" := hmac.kept rfl (by decide)
      have hslot := kept_decimal hmac "t" rfl (by decide) b.binding.toNat
      simp only [Language.itemText, Language.item, Language.declareBuffer, Bool.false_eq_true,
        if_false, line_text]
      exact reads_register hmac hbuffer hfile htype hslot hspace rfl (by simp [← String.toList_inj])
  | wgsl =>
    have hkept : Kept mac (if writable then "read_write" else "read") := by
      cases writable with
      | true => exact haccess rfl
      | false => exact hmac.kept rfl (by decide)
    have hread := reads_storage hmac hbuffer hfile b.group.toNat b.binding.toNat hkept rfl
    rw [← line_text] at hread
    simpa [Language.itemText, Language.item, Language.declareBuffer, Language.itemDeclares,
      File.declare] using hread

omit hfile in
theorem reads_handle {name : String} (h : (Item.handle name).Readable l p mac) :
    Reads l ⟨mac, file, .outside⟩ (l.itemText p.buffer (.handle name))
      ⟨mac, fileAfter l p file [.handle name], .outside⟩ := by
  obtain ⟨href, hmaker⟩ := h
  have hoffset : ∀ q ∈ [("offset", TypeName.scalar .u32)],
      Kept mac q.1 ∧ ReadableType mac q.2 :=
    List.forall_mem_singleton.mpr ⟨hmac.kept rfl (by decide), trivial⟩
  have hstruct := @reads_struct l mac file hmac _ href _ hoffset
  rw [fileAfter_handle]
  cases l with
  | glsl | wgsl =>
    simpa [Language.itemText, Language.item, Language.declareHandle, Language.typeName,
      Language.uintType, Language.extraNames, itemRoutines, File.declare] using hstruct
  | hlsl =>
    have hread := hstruct.append (reads_maker hmac href (hmaker rfl))
    have htext : Language.hlsl.itemText p.buffer (.handle name) =
        (Language.hlsl.declareStruct {} (name ++ "Ref") [⟨"offset", "uint"⟩]).text ++
          ((({} : Code).block
            (Language.hlsl.functionLine (name ++ "Ref_new") [⟨"offset", "uint"⟩] (name ++ "Ref"))
            [name ++ "Ref r;", "r.offset = offset;", "return r;"] "\x7d").blank).text := by
      have hblock : Code.Appends fun c => (c.block
          (Language.hlsl.functionLine (name ++ "Ref_new") [⟨"offset", "uint"⟩] (name ++ "Ref"))
          [name ++ "Ref r;", "r.offset = offset;", "return r;"] "\x7d").blank :=
        (Code.appends_block _ _ _).comp Code.appends_blank
      exact congrArg Code.text
        (hblock (Language.hlsl.declareStruct {} (name ++ "Ref") [⟨"offset", "uint"⟩]))
    rw [htext]
    simpa [Language.typeName, Language.uintType, Language.scalarType, Language.extraNames,
      ScalarKind.isFloat, ScalarKind.isSigned, itemRoutines, File.declare] using hread

omit hfile in
theorem reads_constant {name : String} {value : UInt32}
    (h : (Item.constant name value).Readable l p mac) :
    Reads l ⟨mac, file, .outside⟩ (l.itemText p.buffer (.constant name value))
      ⟨mac ++ itemMacros l (.constant name value), fileAfter l p file [.constant name value],
        .outside⟩ := by
  rw [fileAfter_constant]
  cases l with
  | glsl | hlsl =>
    rw [Language.itemText, Language.item, Language.declareConstant, line_text, itemConstants,
      List.append_nil]
    exact reads_define (by decide) h.1 value ⟨mac, file, .outside⟩
  | wgsl =>
    rw [Language.itemText, Language.item, Language.declareConstant, line_text, itemMacros,
      List.append_nil]
    exact reads_const hmac ⟨h.1, h.2 rfl⟩ value

omit hfile in
theorem reads_function {f : Function} {buffer : String} {constant : String → Term}
    (h : f.Readable l mac buffer constant) :
    Reads l ⟨mac, file, .outside⟩ (l.itemText buffer (.function f))
      ⟨mac, { file.declare f.name with
        routines := file.routines ++ [f.routine l buffer constant] }, .outside⟩ := by
  obtain ⟨hname, hparams, hresult, hbody⟩ := h
  have hne : l.params f ≠ [] := List.cons_ne_nil _ _
  have hresult : l.resultType f = "" ∨
      Kept mac (l.resultType f) ∧ (l ≠ .wgsl → l.resultType f ≠ "void") := by
    rcases hresult with hnone | hkept
    · left
      rw [Language.resultType, hnone]
      rfl
    · exact .inr hkept
  have hlines : List.Forall₂ (Line l mac) (f.body.map (l.stmt buffer))
      (f.body.map (statement l buffer constant)) := by
    rw [List.forall₂_map_left_iff, List.forall₂_map_right_iff, List.forall₂_same]
    exact fun s hs => line_stmt hmac (hbody s hs)
  have hread := @reads_routine l mac file _ _ _ _ (header hmac hname hne hparams hresult) _ _ hlines
  simpa only [Language.itemText, Language.item, Function.routine, List.map_map] using hread

theorem reads_item {item : Item} (h : item.Readable l p mac) (hplain : item.Plain) :
    Reads l ⟨mac, file, .outside⟩ (l.itemText p.buffer item)
      ⟨mac ++ itemMacros l item, fileAfter l p file [item], .outside⟩ := by
  cases item with
  | comment text =>
    have htext : l.itemText p.buffer (.comment text) = "// " ++ text ++ "\n" := line_text _
    rw [htext, itemMacros_remark (.inl rfl), List.append_nil, fileAfter_remark (.inl rfl)]
    exact reads_remark hplain _
  | blank =>
    rw [itemMacros_remark (.inr rfl), List.append_nil, fileAfter_remark (.inr rfl)]
    exact reads_blank _
  | omitted name reason =>
    have hline := line_text ("// " ++ name ++ " omitted: " ++ reason)
    have htext : l.itemText p.buffer (.omitted name reason) =
        "// " ++ (name ++ " omitted: " ++ reason) ++ "\n" ++ "\n" := by
      rw [Language.itemText, Language.item, Code.blank, hline]
      simp only [String.append_assoc]
    have hwhole : Plain (name ++ " omitted: " ++ reason) :=
      plain_append.mpr ⟨plain_append.mpr ⟨hplain.1, rfl⟩, hplain.2⟩
    rw [htext, itemMacros_remark (.inl rfl), List.append_nil, fileAfter_remark (.inl rfl)]
    exact (reads_remark hwhole _).append (reads_blank _)
  | buffer b writable =>
    simp only [itemMacros, List.append_nil]
    exact reads_buffer hmac hfile h
  | handle name =>
    simp only [itemMacros, List.append_nil]
    exact reads_handle hmac h
  | struct name members =>
    simp only [itemMacros, List.append_nil, fileAfter_struct]
    exact reads_struct hmac h.1 h.2
  | constant name value => exact reads_constant hmac h
  | function f =>
    simp only [itemMacros, List.append_nil, fileAfter_function]
    exact reads_function hmac h

end programs

/-- Items of which each is readable with the macros before it. -/
inductive Legible (l : Language) (p : Program) : Macros → List Item → Prop
  | nil {mac} : Legible l p mac []
  | cons {mac item items} : Underscored mac → item.Readable l p mac →
      Legible l p (mac ++ itemMacros l item) items → Legible l p mac (item :: items)

section items

variable {p : Program} {mac : Macros} {items items' : List Item}

theorem Legible.append (h : Legible l p mac items)
    (h' : Legible l p (mac ++ items.flatMap (itemMacros l)) items') :
    Legible l p mac (items ++ items') := by
  induction h with
  | nil => simpa using h'
  | cons hmac hitem _ ih =>
    rw [List.flatMap_cons, ← List.append_assoc] at h'
    exact .cons hmac hitem (ih h')

theorem legible_of_forall (hmac : Underscored mac)
    (h : ∀ item ∈ items, itemMacros l item = [] ∧ item.Readable l p mac) :
    Legible l p mac items := by
  induction items with
  | nil => exact .nil
  | cons item items ih =>
    rw [List.forall_mem_cons] at h
    refine .cons hmac h.1.2 ?_
    rw [h.1.1, List.append_nil]
    exact ih h.2

theorem Legible.code (h : Legible l p mac items) :
    Legible l p mac (items.filter (!·.isRemark)) := by
  induction h with
  | nil => exact .nil
  | @cons mac item items hmac hitem hrest ih =>
    cases hremark : item.isRemark with
    | true =>
      rw [itemMacros_remark (.inl hremark), List.append_nil] at ih
      simpa [hremark] using ih
    | false =>
      rw [List.filter_cons_of_pos (by simp [hremark])]
      exact .cons hmac hitem ih

theorem fileAfter_nil (l : Language) (p : Program) (file : File) :
    fileAfter l p file [] = file := by
  simp [fileAfter]

theorem fileAfter_cons (l : Language) (p : Program) (file : File) (item : Item)
    (items : List Item) :
    fileAfter l p (fileAfter l p file [item]) items = fileAfter l p file (item :: items) := by
  simp [fileAfter]

theorem fileAfter_code (l : Language) (p : Program) (file : File) (items : List Item) :
    fileAfter l p file (items.filter (!·.isRemark)) = fileAfter l p file items := by
  induction items generalizing file with
  | nil => rfl
  | cons item items ih =>
    rw [← fileAfter_cons l p file item items]
    cases hremark : item.isRemark with
    | true =>
      rw [List.filter_cons_of_neg (by simp [hremark]), fileAfter_remark (.inl hremark), ih]
    | false =>
      rw [List.filter_cons_of_pos (by simp [hremark]), ← fileAfter_cons, ih]

theorem reads_items (h : Legible l p mac items) (hplain : ∀ item ∈ items, item.Plain) {file : File}
    (hfile : file.buffer = p.buffer) :
    Reads l ⟨mac, file, .outside⟩ (String.join (items.map (l.itemText p.buffer)))
      ⟨mac ++ items.flatMap (itemMacros l), fileAfter l p file items, .outside⟩ := by
  induction h generalizing file with
  | nil =>
    rw [fileAfter_nil, List.flatMap_nil, List.append_nil]
    exact reads_empty _
  | @cons mac item items hmac hitem _ ih =>
    rw [List.forall_mem_cons] at hplain
    have hrest := @ih hplain.2 (fileAfter l p file [item]) hfile
    rw [fileAfter_cons, List.append_assoc, ← List.flatMap_cons] at hrest
    rw [List.map_cons, String.join_cons]
    exact (reads_item hmac hfile hitem hplain.1).append hrest

end items

end Listing

end WordLayout.Shader
