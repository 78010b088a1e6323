import Mathlib
import WordLayout.Proofs.Shader.Listing.Replacement

/-!
What the texts of outputs are read as. A remark may break the line in a way that ends a line for the
language only; so remarks are left out, or stand on one line each.
-/

namespace WordLayout.Shader

open Listing

/-- What is read from the text of an output. -/
structure Output.ReadsAs (out : Output) (l : Language) (file : Option File) : Prop where
  printed : out.text = String.join (out.program.items.map (l.itemText out.program.buffer))
  code : readFile l out.program.buffer (out.program.code l) = file
  text : (∀ item ∈ out.program.items, item.Plain) →
    readFile l out.program.buffer out.text = file

section outputs

variable {m : Module} {l : Language} {o : Options} {out : Output} (he : emit m l o = .ok out)
include he

theorem readsAs_of_readFile {file : Option File}
    (hcode : readFile l (program m o).buffer ((program m o).code l) = file)
    (htext : (∀ item ∈ (program m o).items, item.Plain) →
      readFile l (program m o).buffer ((program m o).render l) = file) :
    out.ReadsAs l file := by
  obtain ⟨-, -, hprog, hrender⟩ := emit_eq_ok he
  refine ⟨?_, ?_, fun hplain => ?_⟩
  · rw [hrender, hprog, render_eq_join]
  · rw [hprog, hcode]
  · rw [hprog] at hplain ⊢
    rw [hrender, htext hplain]

theorem readsAs_file (hclean : ¬ FieldReplaced m l) :
    out.ReadsAs l (some ((program m o).file l)) :=
  readsAs_of_readFile he (readFile_code (emittable_of_emit he) hclean)
    (readFile_render (emittable_of_emit he) hclean)

theorem readsAs_none (hreplaced : FieldReplaced m l) : out.ReadsAs l none := by
  obtain ⟨htext, hcode⟩ := readFile_replaced (emittable_of_emit he) hreplaced
  exact readsAs_of_readFile he hcode fun _ => htext

theorem names_file :
    ((program m o).file l).names =
      out.program.items.flatMap (l.itemDeclares out.program.buffer) := by
  rw [(emit_eq_ok he).2.2.1]
  exact List.nil_append _

end outputs

section remarks

variable {m : Module} {l : Language} {d : TypeDef}

theorem plain_declaration {item : Item} (hi : item ∈ declarations m d) : item.Plain := by
  rw [declarations_eq] at hi
  rcases List.mem_append.mp hi with hi | hi
  · rcases leading_cases hi with rfl | ⟨x, value, -, rfl⟩ | ⟨fields, -, rfl⟩
    · trivial
    · trivial
    · trivial
  · obtain rfl := List.mem_singleton.mp hi
    trivial

variable (hchecked : checkGivenNames l d = .ok ()) (hd : d ∈ m.defs)
  (hreasons : ∀ s ∈ unsupported m, Plain s.reason)
include hchecked hd hreasons

theorem plain_omitted {variants : List Variant} (hb : d.body = .union variants) {v : Variant}
    (hv : v ∈ variants) {parts : List PayloadItem} {reason : String}
    (hpay : v.payload = .unsupported parts reason) {s : String} (hs : Plain s) :
    (Item.omitted (tagName d v ++ s) reason).Plain := by
  refine ⟨plain_append.mpr ⟨?_, hs⟩, ?_⟩
  · exact (IsWord.of_identifier (isIdentifier_tagName hchecked hb hv)).plain
  · refine hreasons ⟨d.name, v.name, reason⟩ (List.mem_flatMap.mpr ⟨d, hd, ?_⟩)
    rw [hb]
    exact List.mem_filterMap.mpr ⟨v, hv, by rw [hpay]⟩

theorem plain_accessor {maskUnsigned : Bool} {item : Item}
    (hi : item ∈ accessors m maskUnsigned d) : item.Plain := by
  cases hb : d.body with
  | struct fields =>
    simp only [accessors, hb, List.mem_cons, List.mem_ite_nil_right, List.not_mem_nil,
      or_false] at hi
    rcases hi with rfl | ⟨-, rfl⟩
    · trivial
    · trivial
  | union variants =>
    simp only [accessors, hb, List.cons_append, List.mem_cons, List.mem_append, List.mem_flatMap,
      List.mem_ite_nil_right] at hi
    rcases hi with rfl | ⟨v, hv, hi⟩ | ⟨-, v, hv, hi⟩
    · trivial
    · cases hp : v.payload with
      | unsupported parts reason =>
        obtain rfl : item = .omitted (tagName d v ++ "_read") reason := by
          simpa [variantRead, hp] using hi
        exact plain_omitted hchecked hd hreasons hb hv hp rfl
      | struct at_ t =>
        simp only [variantRead, hp, List.mem_singleton] at hi
        rw [hi]
        trivial
      | _ => simp [variantRead, hp] at hi
    · cases hp : v.payload with
      | unsupported parts reason =>
        obtain rfl : item = .omitted (tagName d v ++ "_write") reason := by
          simpa [variantWrite, hp] using hi
        exact plain_omitted hchecked hd hreasons hb hv hp rfl
      | missing => simp [variantWrite, hp] at hi
      | _ =>
        simp only [variantWrite, hp, List.mem_singleton] at hi
        rw [hi]
        trivial
  | missing => simp [accessors, hb] at hi

end remarks

section headers

theorem mem_of_mem_splitOn {xs ys : List Char} {a : Char} (h : ys ∈ xs.splitOn a) :
    ∀ c ∈ ys, c ∈ xs ∧ c ≠ a := by
  induction xs generalizing ys with
  | nil =>
    obtain rfl : ys = [] := by simpa using h
    exact nofun
  | cons x xs ih =>
    rw [List.splitOn_cons_eq_if_modifyHead] at h
    split at h
    · rcases List.mem_cons.mp h with rfl | h
      · exact nofun
      · exact fun c hc => ⟨List.mem_cons_of_mem _ (ih h c hc).1, (ih h c hc).2⟩
    · rename_i hx
      cases hsplit : xs.splitOn a with
      | nil => exact absurd hsplit (List.splitOn_ne_nil a xs)
      | cons zs rest =>
        rw [hsplit] at ih h
        rcases List.mem_cons.mp h with rfl | h
        · intro c hc
          rcases List.mem_cons.mp hc with rfl | hc
          · exact ⟨List.mem_cons_self, by simpa using hx⟩
          · have hzs := ih List.mem_cons_self c hc
            exact ⟨List.mem_cons_of_mem _ hzs.1, hzs.2⟩
        · have hrest := ih (List.mem_cons_of_mem _ h)
          exact fun c hc => ⟨List.mem_cons_of_mem _ (hrest c hc).1, (hrest c hc).2⟩

theorem plain_header {header : String}
    (h : ∀ c ∈ header.toList, isLineBreak c = true → c = '\n') :
    ∀ item ∈ headerItems header, item.Plain := by
  have hdefault : Plain Options.defaultHeader := rfl
  have htext : ∀ c ∈ (if header = "" then Options.defaultHeader else header).toList,
      isLineBreak c = true → c = '\n' := by
    split
    · intro c hc hbreak
      have hnone := List.all_eq_true.mp hdefault c hc
      rw [hbreak] at hnone
      cases hnone
    · exact h
  intro item hi
  rcases List.mem_append.mp hi with hi | hi
  · obtain ⟨line, hline, rfl⟩ := List.mem_map.mp hi
    apply List.all_eq_true.mpr
    intro c hc
    rw [String.toList_ofList] at hc
    obtain ⟨hmem, hne⟩ := mem_of_mem_splitOn hline c hc
    by_contra hbreak
    exact hne (htext c hmem (by simpa using hbreak))
  · obtain rfl := List.mem_singleton.mp hi
    trivial

end headers

theorem plain_items {m : Module} {l : Language} {o : Options} {out : Output}
    (he : emit m l o = .ok out) (hheader : ∀ c ∈ o.header.toList, isLineBreak c = true → c = '\n')
    (hreasons : ∀ s ∈ unsupported m, Plain s.reason) :
    ∀ item ∈ out.program.items, item.Plain := by
  have hm := emittable_of_emit he
  obtain ⟨-, -, hprog, -⟩ := emit_eq_ok he
  rw [hprog, items_program]
  intro item hi
  rcases List.mem_append.mp hi with hi | hi
  · rcases List.mem_append.mp hi with hi | hi
    · rcases mem_opening_iff.mp hi with hi | ⟨b, -, rfl | rfl⟩ | ⟨d, -, rfl⟩
      · exact plain_header hheader item hi
      · trivial
      · trivial
      · trivial
    · obtain ⟨d, -, hi⟩ := List.mem_flatMap.mp hi
      exact plain_declaration hi
  · obtain ⟨d, hd, hi⟩ := List.mem_flatMap.mp hi
    exact plain_accessor (hm.names.checked d hd) hd hreasons hi

theorem not_fieldReplaced {m : Module} {l : Language}
    (h : ∀ d ∈ m.defs, ∀ x, HasField d x → '_' ∉ x.toList) : ¬ FieldReplaced m l := by
  rintro ⟨-, d, hd, e, he, x, hx, hfield⟩
  exact h d hd x hfield (underscore_of_constant hx)

end WordLayout.Shader
