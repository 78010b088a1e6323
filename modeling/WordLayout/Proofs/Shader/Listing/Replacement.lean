import Mathlib
import WordLayout.Proofs.Shader.Listing.Programs

namespace WordLayout.Shader

namespace Listing

variable {l : Language}

section numbers

theorem head_of_number {cs : List Char} {n : Nat} (h : number? cs = some n) :
    ∃ c ∈ cs.head?, Text.isIdentifierStart c = false := by
  rw [number?.eq_def] at h
  split at h
  · exact ⟨'0', rfl, rfl⟩
  · split at h
    · rename_i n' _
      split at h
      · rename_i hdigits
        obtain ⟨c, hc, hstart⟩ := decimal_head n'
        rw [decimal_toList, hdigits] at hc
        exact ⟨c, hc, hstart⟩
      · cases h
    · cases h

theorem not_identifier_of_literal (hl : l ≠ .wgsl) {w : String}
    (h : (literal? l w).isSome = true) : Text.isIdentifier w = false := by
  obtain ⟨n, hn⟩ : ∃ n, number? w.toList = some n := by
    cases l with
    | glsl | hlsl => exact Option.isSome_iff_exists.mp (by simpa [literal?] using h)
    | wgsl => exact absurd rfl hl
  obtain ⟨c, hc, hstart⟩ := head_of_number hn
  exact not_identifier_of_digit hc hstart

end numbers

section states

variable {st st' : State}

def Literals (l : Language) (mac : Macros) : Prop := ∀ q ∈ mac, (literal? l q.2).isSome = true

theorem directive_literal {ts : List Token} {q : String × String}
    (h : directive? l ts = some q) : (literal? l q.2).isSome = true := by
  unfold directive? at h
  split at h
  · split at h
    · rename_i hcond
      obtain rfl := Option.some.inj h
      exact hcond.2.2
    · cases h
  · cases h

theorem readLine_macros {line : List Char} (h : readLine l st line = some st') :
    ∃ more, st'.macros = st.macros ++ more ∧ Literals l more := by
  rw [readLine] at h
  split at h
  · obtain rfl := Option.some.inj h
    exact ⟨[], (List.append_nil _).symm, List.forall_mem_nil _⟩
  · split at h
    · rename_i q hq
      obtain rfl := Option.some.inj h
      exact ⟨[q], rfl, List.forall_mem_singleton.mpr (directive_literal hq)⟩
    · obtain ⟨p, -, rfl⟩ := Option.map_eq_some_iff.mp h
      exact ⟨[], (List.append_nil _).symm, List.forall_mem_nil _⟩

theorem readLines_macros {cs : List Char} (h : readLines l st cs = some st') :
    ∃ more, st'.macros = st.macros ++ more ∧ Literals l more := by
  rw [readLines] at h
  generalize cs.splitOnP isLineBreak = lines at h
  induction lines generalizing st with
  | nil =>
    obtain rfl := Option.some.inj h
    exact ⟨[], (List.append_nil _).symm, List.forall_mem_nil _⟩
  | cons line lines ih =>
    rw [List.foldlM_cons] at h
    obtain ⟨mid, hline, hrest⟩ := Option.bind_eq_some_iff.mp h
    obtain ⟨more, hmid, hmore⟩ := readLine_macros hline
    obtain ⟨last, hlast, hliterals⟩ := ih hrest
    refine ⟨more ++ last, ?_, List.forall_mem_append.mpr ⟨hmore, hliterals⟩⟩
    rw [hlast, hmid, List.append_assoc]

theorem readPart_number {file : File} {part : Part} {a w : String} {ts : List Token}
    (hw : Text.isIdentifier w = false) :
    readPart l file part (.word a :: .mark '.' :: .word w :: ts) = none := by
  cases part with
  | outside =>
    have hbuffer : bufferLine? l (.word a :: .mark '.' :: .word w :: ts) = none := by
      cases l <;> simp [bufferLine?]
    rw [readPart, readOutside, hbuffer] <;> simp
  | members name done => cases l <;> simp [readPart, closing, member?]
  | block writable => cases l <;> simp [readPart, closing]
  | body r =>
    have hmark : readTerm l (.mark '.' :: .word w :: ts) = none := by simp [readTerm, readFrom]
    have heffect : readTerm l (.word a :: .mark '.' :: .word w :: ts) = none := by
      rw [readTerm, readFrom.eq_def]
      dsimp only
      cases atom? l a with
      | none => rfl
      | some t => simp [readFrom, hw]
    simp [readPart, readStatement, readLast, readEffect, hmark, heffect]

theorem readLine_number {x w : String} (hx : Text.isIdentifier x = true)
    (hlookup : st.macros.lookup x = some w) (hw : Text.isIdentifier w = false) (s : String) :
    readLine l st ("    s." ++ x ++ " = " ++ s).toList = none := by
  have hlist : ("    s." ++ x ++ " = " ++ s).toList =
      ' ' :: ' ' :: ' ' :: ' ' ::
        ("s".toList ++ '.' :: (x.toList ++ ' ' :: '=' :: ' ' :: s.toList)) := by
    simp
  have hs : IsWord "s" := .of_identifier rfl
  have htokens : tokens ("    s." ++ x ++ " = " ++ s).toList =
      .word "s" :: .mark '.' :: .word x :: tokens (' ' :: '=' :: ' ' :: s.toList) := by
    rw [hlist, tokens_space, tokens_space, tokens_space, tokens_space,
      tokens_word hs (stop_cons rfl _), tokens_mark rfl,
      tokens_word (.of_identifier hx) (stop_cons rfl _)]
  have hdirective : directive? l (tokens ("    s." ++ x ++ " = " ++ s).toList) = none := by
    rw [htokens]
    rfl
  have hreplaced : replace st.macros (.word x) = .word w := by
    rw [replace, hlookup]
    rfl
  have hmark : replace st.macros (.mark '.') = .mark '.' := rfl
  rw [readLine]
  simp only [hdirective]
  rw [htokens, if_neg (List.cons_ne_nil _ _), List.map_cons, List.map_cons, List.map_cons, replace,
    hmark, hreplaced, readPart_number hw, Option.map_none]

end states

section texts

variable {st : State}

theorem closed_itemText (l : Language) (buffer : String) (item : Item) :
    Closed (l.itemText buffer item) := by
  right
  cases item with
  | buffer b writable => cases l <;> exact ⟨_, rfl⟩
  | handle name => cases l <;> exact ⟨_, rfl⟩
  | struct name members => cases l <;> exact ⟨_, rfl⟩
  | constant name value => cases l <;> exact ⟨_, rfl⟩
  | comment | blank | function | omitted => exact ⟨_, rfl⟩

theorem closed_join {ss : List String} (h : ∀ s ∈ ss, Closed s) : Closed (String.join ss) := by
  induction ss with
  | nil => exact .inl rfl
  | cons s ss ih =>
    rw [List.forall_mem_cons] at h
    rw [String.join_cons]
    exact h.1.append (ih h.2)

theorem closed_items (l : Language) (buffer : String) (items : List Item) :
    Closed (String.join (items.map (l.itemText buffer))) :=
  closed_join (List.forall_mem_map.mpr fun item _ => closed_itemText l buffer item)

theorem readLines_eq_none {a b : String} (ha : Closed a) (hst : Literals l st.macros)
    (h : ∀ st', Literals l st'.macros → st.macros ⊆ st'.macros → readLines l st' b.toList = none) :
    readLines l st (a ++ b).toList = none := by
  rw [readLines_append ha]
  cases hread : readLines l st a.toList with
  | none => rfl
  | some st' =>
    obtain ⟨more, hmore, hliterals⟩ := readLines_macros hread
    refine h st' ?_ ?_
    · rw [hmore]
      exact List.forall_mem_append.mpr ⟨hst, hliterals⟩
    · rw [hmore]
      exact List.subset_append_left _ _

theorem function_text (l : Language) (buffer : String) {f : Function} {s : Stmt}
    (hs : s ∈ f.body) :
    ∃ a b, Closed a ∧
      l.itemText buffer (.function f) = a ++ ("    " ++ l.stmt buffer s ++ "\n" ++ b) := by
  obtain ⟨before, after, hbody⟩ := List.append_of_mem hs
  have htext : l.itemText buffer (.function f) =
      (({} : Code).block (l.functionLine f.name (l.params f) (l.resultType f))
        (f.body.map (l.stmt buffer)) "\x7d").text ++ "\n" := rfl
  have hlines : ∀ ss : List String,
      Closed (String.join (ss.map fun s => "    " ++ s ++ "\n")) := fun ss =>
    closed_join (List.forall_mem_map.mpr fun s _ => closed_line _)
  refine ⟨_, String.join ((after.map (l.stmt buffer)).map fun s => "    " ++ s ++ "\n") ++
    ("\x7d" ++ "\n" ++ "\n"), (closed_line (l.functionLine f.name (l.params f)
      (l.resultType f))).append (hlines (before.map (l.stmt buffer))), ?_⟩
  rw [htext, block_text, hbody, List.map_append, List.map_append, String.join_append, List.map_cons,
    List.map_cons, String.join_cons]
  simp only [String.append_assoc]

theorem readFile_eq_none {p : Program} {items before mid after : List Item} {x : String}
    {value : UInt32} {f : Function} {source : Source}
    (hitems : items = before ++ .constant x value :: (mid ++ .function f :: after))
    (hl : l ≠ .wgsl) (hx : Text.isIdentifier x = true) (hs : .assign x source ∈ f.body)
    (hplain : Plain (l.stmt p.buffer (.assign x source))) :
    readFile l p.buffer (String.join (items.map (l.itemText p.buffer))) = none := by
  obtain ⟨a, b, ha, hf⟩ := function_text l p.buffer hs
  have hconstant : l.itemText p.buffer (.constant x value) =
      "#define " ++ x ++ " " ++ toString value.toNat ++ "\n" := by
    cases l with
    | glsl | hlsl => exact line_text _
    | wgsl => exact absurd rfl hl
  have hnone : readLines l { file := { buffer := p.buffer } }
      (String.join (items.map (l.itemText p.buffer))).toList = none := by
    rw [hitems, List.map_append, String.join_append, List.map_cons, String.join_cons,
      List.map_append, String.join_append, List.map_cons, String.join_cons, hconstant, hf]
    refine readLines_eq_none (closed_items l p.buffer before) nofun fun st hst _ => ?_
    have hdefine := reads_define hl hx value st
    rw [readLines_append hdefine.closed, hdefine.read, Option.bind_some]
    have hdefined : Literals l (st.macros ++ [(x, toString value.toNat)]) := by
      refine List.forall_mem_append.mpr ⟨hst, List.forall_mem_singleton.mpr ?_⟩
      rw [← uint_eq_decimal hl, literal?_uint]
      rfl
    refine readLines_eq_none (closed_items l p.buffer mid) hdefined fun st' hst' hsub => ?_
    rw [String.append_assoc]
    refine readLines_eq_none ha hst' fun st'' hst'' hsub' => ?_
    -- the first macro of that name stands for a number too
    obtain ⟨w, hw⟩ : ∃ w, st''.macros.lookup x = some w := by
      apply Option.ne_none_iff_exists'.mp
      have hmem : (x, toString value.toNat) ∈ st''.macros := hsub' (hsub (by simp))
      exact fun h => lookup_eq_none_iff_notMem.mp h (List.mem_map_of_mem hmem)
    have hnumber := not_identifier_of_literal hl (hst'' _ (mem_of_lookup hw))
    have hline : "    " ++ l.stmt p.buffer (.assign x source) =
        "    s." ++ x ++ " = " ++ (l.source source ++ ";") := by
      simp [Language.stmt, ← String.toList_inj]
    have hwhole : Plain ("    " ++ l.stmt p.buffer (.assign x source)) :=
      plain_append.mpr ⟨rfl, hplain⟩
    have hread : readLines l st'' ("    " ++ l.stmt p.buffer (.assign x source) ++ "\n").toList =
        none := by
      rw [readLines_line hwhole, hline]
      exact readLine_number hx hw hnumber _
    rw [String.append_assoc, readLines_append (closed_line _), hread, Option.bind_none]
  rw [readFile, hnone]

theorem readFile_replaced {m : Module} {o : Options} (hm : Emittable m l o)
    (hreplaced : FieldReplaced m l) :
    readFile l (program m o).buffer ((program m o).render l) = none ∧
      readFile l (program m o).buffer ((program m o).code l) = none := by
  obtain ⟨hl, d, hd, e, he, x, hx, hfield⟩ := hreplaced
  have hid := isIdentifier_field (hm.names.checked d hd) hfield
  obtain ⟨fields, hb, f, hf, rfl⟩ := hfield
  have hassign : .assign f.name (fieldSource m f) ∈ (readFunction m d fields).body :=
    List.mem_append_left _ (List.mem_append_right _ (List.mem_map_of_mem hf))
  have hplain : Plain (l.stmt (program m o).buffer (.assign f.name (fieldSource m f))) := by
    have hnone : Underscored [] := fun _ h => absurd rfl h
    have hnil : FromConstants m l o [] := nofun
    have hkept : ∀ x, HasField d x → Kept [] x :=
      fun x hx => ⟨isIdentifier_field (hm.names.checked d hd) hx, rfl⟩
    have hreadable : (Stmt.assign f.name (fieldSource m f)).Readable l []
        (program m o).buffer (constantTerm l (program m o)) :=
      ⟨hkept _ ⟨fields, hb, f, hf, rfl⟩,
        readable_source hm hnil hkept (fits_fieldSource hm.valid hd hb hf)⟩
    exact (line_stmt hnone hreadable).plain
  obtain ⟨value, hvalue⟩ := constant_mem_leading (m := m) hx
  have hdeclared : .constant f.name value ∈ opening m o ++ m.defs.flatMap (declarations m) := by
    refine List.mem_append_right _ (List.mem_flatMap.mpr ⟨e, he, ?_⟩)
    rw [declarations_eq]
    exact List.mem_append_left _ hvalue
  have hread : .function (readFunction m d fields) ∈ m.defs.flatMap (accessors m o.maskUnsigned) :=
    List.mem_flatMap.mpr ⟨d, hd, by simp [accessors, hb]⟩
  obtain ⟨before, mid, hbefore⟩ := List.append_of_mem hdeclared
  obtain ⟨mid', after, hafter⟩ := List.append_of_mem hread
  have hitems : (program m o).items = before ++ .constant f.name value ::
      ((mid ++ mid') ++ .function (readFunction m d fields) :: after) := by
    rw [items_program, hbefore, hafter]
    simp
  constructor
  · rw [render_eq_join]
    exact readFile_eq_none hitems hl hid hassign hplain
  · have hcode : (program m o).items.filter (!·.isRemark) = before.filter (!·.isRemark) ++
        .constant f.name value :: ((mid ++ mid').filter (!·.isRemark) ++
          .function (readFunction m d fields) :: after.filter (!·.isRemark)) := by
      rw [hitems]
      simp [Item.isRemark]
    exact readFile_eq_none hcode hl hid hassign hplain

end texts

end Listing

end WordLayout.Shader
