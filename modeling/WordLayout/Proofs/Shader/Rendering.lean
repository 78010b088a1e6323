import Mathlib
import WordLayout.Shader.Program

namespace WordLayout.Shader

namespace Code

def Appends (write : Code → Code) : Prop :=
  ∀ c : Code, write c = ⟨c.text ++ (write ⟨"", c.depth⟩).text, (write ⟨"", c.depth⟩).depth⟩

theorem Appends.comp {first second : Code → Code} (hf : Appends first) (hs : Appends second) :
    Appends fun c => second (first c) := by
  intro c
  simp only
  rw [hf c, hs ⟨_, _⟩, hs (first ⟨"", c.depth⟩), String.append_assoc]

theorem appends_line (s : String) : Appends fun c => c.line s := by
  intro c
  simp only [line, String.empty_append, String.append_assoc]

theorem appends_blank : Appends blank := by
  intro c
  simp only [blank, String.empty_append]

theorem appends_push : Appends push := by
  intro c
  simp only [push, String.append_empty]

theorem appends_pop : Appends pop := by
  intro c
  simp only [pop, String.append_empty]

theorem appends_lines (ss : List String) : Appends fun c => c.lines ss := by
  induction ss with
  | nil =>
    intro c
    simp only [lines, List.foldl_nil, String.append_empty]
  | cons s ss ih => exact (appends_line s).comp ih

theorem appends_block (first : String) (body : List String) (last : String) :
    Appends fun c => c.block first body last := by
  have hopen := (appends_line first).comp appends_push
  have hbody := hopen.comp (appends_lines body)
  exact (hbody.comp appends_pop).comp (appends_line last)

@[simp]
theorem depth_line (c : Code) (s : String) : (c.line s).depth = c.depth := rfl

@[simp]
theorem depth_blank (c : Code) : c.blank.depth = c.depth := rfl

@[simp]
theorem depth_lines (c : Code) (ss : List String) : (c.lines ss).depth = c.depth := by
  induction ss generalizing c with
  | nil => rfl
  | cons s ss ih => exact ih (c.line s)

@[simp]
theorem depth_block (c : Code) (first : String) (body : List String) (last : String) :
    (c.block first body last).depth = c.depth := by
  simp [block, pop, push]

end Code

namespace Language

open Code

variable (l : Language) (buffer : String)

theorem appends_declareStruct (name : String) (members : List Typed) :
    Appends fun c => l.declareStruct c name members := by
  cases l <;> exact (appends_block _ _ _).comp appends_blank

@[simp]
theorem depth_declareStruct (c : Code) (name : String) (members : List Typed) :
    (l.declareStruct c name members).depth = c.depth := by
  cases l <;> simp [declareStruct]

theorem appends_item (item : Item) : Appends fun c => l.item buffer c item := by
  cases item with
  | comment text => exact appends_line _
  | blank => exact appends_blank
  | buffer binding writable =>
    cases l
    · exact appends_block _ _ _
    · exact appends_line _
    · exact appends_line _
  | handle name =>
    have hdecl := l.appends_declareStruct (name ++ "Ref") [⟨"offset", l.scalarType .u32⟩]
    cases l
    · exact hdecl
    · exact (hdecl.comp (appends_block _ _ _)).comp appends_blank
    · exact hdecl
  | struct name members => exact l.appends_declareStruct _ _
  | constant name value => cases l <;> exact appends_line _
  | function f => exact (appends_block _ _ _).comp appends_blank
  | omitted name reason => exact (appends_line _).comp appends_blank

theorem depth_item (c : Code) (item : Item) : (l.item buffer c item).depth = c.depth := by
  cases item with
  | buffer binding writable => cases l <;> simp [item, declareBuffer]
  | handle name => cases l <;> simp [item, declareHandle]
  | constant name value => cases l <;> simp [item, declareConstant]
  | _ => simp [item]

def itemText (item : Item) : String := (l.item buffer {} item).text

theorem foldl_item (items : List Item) (c : Code) (hc : c.depth = 0) :
    (items.foldl (l.item buffer) c).text =
      c.text ++ String.join (items.map (l.itemText buffer)) := by
  induction items generalizing c with
  | nil => simp
  | cons item items ih =>
    have htext : (l.item buffer c item).text = c.text ++ l.itemText buffer item := by
      have happ := l.appends_item buffer item c
      simp only [hc] at happ
      rw [happ]
      rfl
    have hdepth := (l.depth_item buffer c item).trans hc
    rw [List.foldl_cons, ih _ hdepth, htext, List.map_cons, String.join_cons,
      String.append_assoc]

end Language

theorem render_eq_join (p : Program) (l : Language) :
    p.render l = String.join (p.items.map (l.itemText p.buffer)) := by
  have hfold := l.foldl_item p.buffer p.items {} rfl
  rwa [String.empty_append] at hfold

end WordLayout.Shader
