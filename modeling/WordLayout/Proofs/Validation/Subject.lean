import Mathlib
import WordLayout.Proofs.Draft
import WordLayout.Proofs.Validation.Order

namespace WordLayout

def Body.memberNames : Body → List String
  | .struct fields => fields.map (·.name)
  | .union variants => variants.map (·.name)
  | .missing => []

def BodyDraft.memberNames : BodyDraft → List String
  | .struct fields => fields.map (·.name)
  | .union variants => variants.map (·.name)

def ValidationError.About (e : ValidationError) (name : String) (members : List String) : Prop :=
  e.type = name ∧ (e.member = "" ∨ e.member ∈ members)

namespace Validation

variable {m : Module} {d : TypeDef} {e : ValidationError}

theorem exists_def_of_nameErrors (h : e ∈ nameErrors m) :
    ∃ d ∈ m.defs, e.About d.name d.body.memberNames := by
  obtain ⟨⟨name, again⟩, hzip, hname⟩ := List.mem_filterMap.mp h
  obtain ⟨d, hd, rfl⟩ := List.mem_map.mp (List.of_mem_zip hzip).1
  obtain ⟨-, herror⟩ := Option.ite_none_right_eq_some.mp hname
  obtain rfl := Option.some.inj herror
  exact ⟨d, hd, rfl, .inl rfl⟩

theorem about_of_marked {α : Type} {xs : List α} {name : α → String} {marked : α × Bool → List Flaw}
    (h : e ∈ (xs.zip (repeats [] (xs.map name))).flatMap fun x =>
      (marked x).map fun flaw => ({ flaw, type := d.name, member := name x.1 } : ValidationError)) :
    e.About d.name (xs.map name) := by
  obtain ⟨⟨x, again⟩, hzip, hflaw⟩ := List.mem_flatMap.mp h
  obtain ⟨flaw, -, rfl⟩ := List.mem_map.mp hflaw
  exact ⟨rfl, .inr (List.mem_map_of_mem (List.of_mem_zip hzip).1)⟩

theorem about_of_structErrors {fields : List Field} (h : e ∈ structErrors m d fields) :
    e.About d.name (fields.map (·.name)) := by
  unfold structErrors at h
  split at h
  · rw [List.mem_singleton.mp h]
    exact ⟨rfl, .inl rfl⟩
  · rcases List.mem_append.mp h with h | h
    · exact about_of_marked h
    · obtain ⟨⟨a, b⟩, hab, rfl⟩ := List.mem_map.mp h
      have hb := List.mem_of_mem_tail (List.of_mem_zip (List.mem_filter.mp hab).1).2
      exact ⟨rfl, .inr (List.mem_map_of_mem (List.mem_mergeSort.mp hb))⟩

theorem about_of_unionErrors {variants : List Variant} (h : e ∈ unionErrors m d variants) :
    e.About d.name (variants.map (·.name)) := by
  unfold unionErrors at h
  split at h
  · rw [List.mem_singleton.mp h]
    exact ⟨rfl, .inl rfl⟩
  · rcases List.mem_append.mp h with h | h
    · split at h
      · rw [List.mem_singleton.mp h]
        exact ⟨rfl, .inl rfl⟩
      · cases h
    · exact about_of_marked h

theorem about_of_defErrors (h : e ∈ defErrors m d) : e.About d.name d.body.memberNames := by
  rcases List.mem_append.mp h with h | h
  · split at h
    · cases h
    · rw [List.mem_singleton.mp h]
      exact ⟨rfl, .inl rfl⟩
  · cases hb : d.body with
    | struct fields =>
      rw [hb] at h
      exact about_of_structErrors h
    | union variants =>
      rw [hb] at h
      exact about_of_unionErrors h
    | missing =>
      rw [hb] at h
      rw [List.mem_singleton.mp h]
      exact ⟨rfl, .inl rfl⟩

theorem exists_def_of_edge {edge : Handle × Handle} (h : edge ∈ allEdges (graph m)) :
    ∃ d ∈ m.defs, m.nameOf edge.1 = d.name := by
  obtain ⟨i, d, hd, hi, -⟩ := mem_allEdges_iff.mp h
  rw [hi]
  have hlt : (UInt32.ofNat i).toNat < m.defs.length := by
    obtain ⟨hlt, -⟩ := List.getElem?_eq_some_iff.mp hd
    exact (Nat.mod_le i _).trans_lt hlt
  refine ⟨m.defs[(UInt32.ofNat i).toNat], List.getElem_mem hlt, ?_⟩
  rw [Module.nameOf, Module.def?, List.getElem?_eq_getElem hlt]
  rfl

theorem exists_def_of_orderErrors (h : e ∈ orderErrors m) :
    ∃ d ∈ m.defs, e.About d.name d.body.memberNames := by
  rcases foldl_mem_cases (allEdges (graph m)) ([], []) h with h | ⟨edge, hedge, herror⟩
  · cases h
  · obtain ⟨d, hd, hname⟩ := exists_def_of_edge hedge
    rcases herror with rfl | ⟨path, -, -, rfl⟩
    · exact ⟨d, hd, hname, .inl rfl⟩
    · exact ⟨d, hd, hname, .inl rfl⟩

theorem exists_def_of_validate (h : e ∈ m.validate) :
    ∃ d ∈ m.defs, e.About d.name d.body.memberNames := by
  rcases List.mem_append.mp h with h | h
  · rcases List.mem_append.mp h with h | h
    · exact exists_def_of_nameErrors h
    · obtain ⟨d, hd, hdef⟩ := List.mem_flatMap.mp h
      exact ⟨d, hd, about_of_defErrors hdef⟩
  · exact exists_def_of_orderErrors h

end Validation

namespace Draft

variable {d : Draft} {e : ValidationError}

theorem memberNames_resolveBody (d : Draft) (body : BodyDraft) :
    (d.resolveBody body).memberNames ⊆ body.memberNames := by
  intro name hname
  cases body with
  | struct fields =>
    obtain ⟨g, hg, rfl⟩ := List.mem_map.mp hname
    obtain ⟨f, hf, hres⟩ := List.mem_filterMap.mp hg
    cases hfield : d.resolveField f with
    | error unknown => simp [hfield, value?] at hres
    | ok g' =>
      rw [hfield, value?, Option.some.injEq] at hres
      rw [resolveField] at hfield
      obtain ⟨ty, -, hg'⟩ := bind_eq_ok_iff.mp hfield
      obtain rfl := Except.ok.inj hg'
      rw [← hres]
      exact List.mem_map_of_mem hf
  | union variants =>
    obtain ⟨w, hw, rfl⟩ := List.mem_map.mp hname
    obtain ⟨v, hv, rfl⟩ := List.mem_map.mp hw
    exact List.mem_map_of_mem hv

theorem exists_spec_of_resolved
    (h : ∃ t ∈ d.resolved.defs, e.About t.name t.body.memberNames) :
    ∃ s ∈ d.defs, e.About s.name s.body.memberNames := by
  obtain ⟨t, ht, htype, hmember⟩ := h
  obtain ⟨s, hs, rfl⟩ := List.mem_map.mp ht
  exact ⟨s, hs, htype, hmember.imp_right fun h => memberNames_resolveBody d s.body h⟩

theorem nameErrors_resolved : Validation.nameErrors d.resolved = d.nameErrors := by
  simp [Validation.nameErrors, nameErrors, resolved, Function.comp_def]

theorem about_of_unknownNames {s : DefDraft} (h : e ∈ d.unknownNames s) :
    e.About s.name s.body.memberNames := by
  unfold unknownNames at h
  cases hb : s.body with
  | struct fields =>
    rw [hb] at h
    obtain ⟨f, hf, hname⟩ := List.mem_filterMap.mp h
    split at hname
    · cases hname
    · obtain rfl := Option.some.inj hname
      exact ⟨rfl, .inr (List.mem_map_of_mem hf)⟩
  | union variants =>
    rw [hb] at h
    obtain ⟨v, hv, hname⟩ := List.mem_filterMap.mp h
    split at hname
    · cases hname
    · obtain rfl := Option.some.inj hname
      exact ⟨rfl, .inr (List.mem_map_of_mem hv)⟩

theorem exists_spec_of_build {errors : List ValidationError} (h : d.build = .error errors) :
    errors ≠ [] ∧ ∀ e ∈ errors, ∃ s ∈ d.defs, e.About s.name s.body.memberNames := by
  have hnames : ∀ e ∈ d.nameErrors, ∃ s ∈ d.defs, e.About s.name s.body.memberNames := by
    intro e he
    rw [← nameErrors_resolved] at he
    exact exists_spec_of_resolved (Validation.exists_def_of_nameErrors he)
  have hunknown : ∀ e ∈ d.defs.flatMap d.unknownNames,
      ∃ s ∈ d.defs, e.About s.name s.body.memberNames := by
    intro e he
    obtain ⟨s, hs, hmem⟩ := List.mem_flatMap.mp he
    exact ⟨s, hs, about_of_unknownNames hmem⟩
  have hvalid : ∀ e ∈ d.resolved.validate, ∃ s ∈ d.defs, e.About s.name s.body.memberNames :=
    fun e he => exists_spec_of_resolved (Validation.exists_def_of_validate he)
  -- the errors are those of the first check that has any
  unfold build at h
  split at h
  · rename_i heq
    obtain rfl := Except.error.inj h
    exact ⟨List.cons_ne_nil _ _, heq ▸ hnames⟩
  · split at h
    · rename_i heq
      obtain rfl := Except.error.inj h
      exact ⟨List.cons_ne_nil _ _, heq ▸ hunknown⟩
    · split at h
      · rename_i heq
        obtain rfl := Except.error.inj h
        exact ⟨List.cons_ne_nil _ _, heq ▸ hvalid⟩
      · cases h

end Draft

end WordLayout
