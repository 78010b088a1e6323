import Mathlib
import WordLayout.Validation
import WordLayout.Proofs.Word

namespace WordLayout.Validation

theorem length_repeats {α : Type} [DecidableEq α] (seen xs : List α) :
    (repeats seen xs).length = xs.length := by
  induction xs generalizing seen with
  | nil => rfl
  | cons x xs ih => simp [repeats, ih]

theorem repeats_all_false_iff {α : Type} [DecidableEq α] (seen xs : List α) :
    (∀ again ∈ repeats seen xs, again = false) ↔ xs.Nodup ∧ ∀ x ∈ xs, x ∉ seen := by
  induction xs generalizing seen with
  | nil => simp [repeats]
  | cons x xs ih =>
    rw [repeats, List.forall_mem_cons, ih, List.nodup_cons, List.forall_mem_cons]
    simp only [List.contains_eq_mem, decide_eq_false_iff_not, List.mem_cons, not_or]
    constructor
    · rintro ⟨hx, hnd, hxs⟩
      exact ⟨⟨fun hmem => (hxs x hmem).1 rfl, hnd⟩, hx, fun y hy => (hxs y hy).2⟩
    · rintro ⟨⟨hmem, hnd⟩, hx, hxs⟩
      refine ⟨hx, hnd, fun y hy => ⟨?_, hxs y hy⟩⟩
      rintro rfl
      exact hmem hy

theorem forall_mem_zip_iff {α β : Type} {as : List α} {bs : List β} (h : as.length = bs.length)
    {P : α → Prop} {Q : β → Prop} :
    (∀ p ∈ as.zip bs, Q p.2 ∧ P p.1) ↔ (∀ b ∈ bs, Q b) ∧ ∀ a ∈ as, P a := by
  induction as generalizing bs with
  | nil =>
    cases bs with
    | nil => simp
    | cons b bs => simp at h
  | cons a as ih =>
    cases bs with
    | nil => simp at h
    | cons b bs =>
      simp only [List.zip_cons_cons, List.forall_mem_cons, ih (Nat.succ.inj h)]
      tauto

theorem forall_marked_iff {α : Type} (xs : List α) (name : α → String) (P : α → Prop) :
    (∀ p ∈ xs.zip (repeats [] (xs.map name)), p.2 = false ∧ P p.1) ↔
      (xs.map name).Nodup ∧ ∀ x ∈ xs, P x := by
  rw [forall_mem_zip_iff (by simp [length_repeats]) (Q := (· = false)), repeats_all_false_iff]
  simp

theorem nameErrors_eq_nil_iff (m : Module) :
    nameErrors m = [] ↔ (m.defs.map (·.name)).Nodup := by
  have h := forall_marked_iff (m.defs.map (·.name)) id fun _ => True
  simp only [List.map_id, and_true, implies_true] at h
  rw [← h]
  simp only [nameErrors, List.filterMap_eq_nil_iff]
  constructor
  · intro hp p hm
    have := hp p hm
    simpa using this
  · intro hp p hm
    simp [hp p hm]

theorem targetFlaw?_eq_none_iff (m : Module) (usage : Usage) (target : Handle) :
    targetFlaw? m usage target = none ↔ ∃ d, m.def? target = some d ∧ d.isUnion = false := by
  unfold targetFlaw?
  cases m.def? target with
  | none => simp
  | some d => cases hu : d.isUnion <;> simp [hu]

theorem fieldFlaws_eq_nil_iff (m : Module) (size : UInt32) (f : Field) :
    fieldFlaws m size f = [] ↔
      typeFlaw? m f.ty = none ∧ f.size = m.sizeOf f.ty ∧ f.offset % alignment f.ty = 0 ∧
        f.offset + f.size ≤ size := by
  unfold fieldFlaws
  cases typeFlaw? m f.ty with
  | some flaw => simp
  | none =>
    by_cases hs : f.size = m.sizeOf f.ty
    · simp [hs, UInt32.not_lt]
    · simp [hs]

theorem structErrors_eq_nil_iff (m : Module) (d : TypeDef) (fields : List Field) :
    structErrors m d fields = [] ↔
      fields ≠ [] ∧ (fields.map (·.name)).Nodup ∧ (∀ f ∈ fields, fieldFlaws m d.size f = []) ∧
        overlaps fields = [] := by
  unfold structErrors
  by_cases he : fields = []
  · simp [he]
  · have hm := forall_marked_iff fields (·.name) fun f => fieldFlaws m d.size f = []
    rw [if_neg (by simpa using he), List.append_eq_nil_iff, List.flatMap_eq_nil_iff,
      List.map_eq_nil_iff]
    simp only [List.map_eq_nil_iff, List.append_eq_nil_iff]
    rw [← and_assoc (a := List.Nodup _), ← hm]
    simp [he]

theorem payloadFlaws_eq_nil_iff (m : Module) (size offset : UInt32) (target : Handle) :
    payloadFlaws m size (.struct offset target) = [] ↔
      targetFlaw? m .inline target = none ∧ 4 ≤ offset ∧ offset % 4 = 0 ∧
        offset + m.sizeOf (.inline target) ≤ size := by
  simp only [payloadFlaws]
  cases targetFlaw? m .inline target with
  | some flaw => simp
  | none =>
    by_cases h4 : offset < 4
    · simp [h4, UInt32.not_le.mpr h4]
    · by_cases ha : offset % 4 = 0
      · simp [h4, ha, UInt32.not_lt.mp h4, UInt32.not_lt]
      · simp [h4, ha]

theorem unionErrors_eq_nil_iff (m : Module) (d : TypeDef) (variants : List Variant) :
    unionErrors m d variants = [] ↔
      variants ≠ [] ∧ 4 ≤ d.size ∧ (variants.map (·.name)).Nodup ∧
        ∀ v ∈ variants, payloadFlaws m d.size v.payload = [] := by
  unfold unionErrors
  by_cases he : variants = []
  · simp [he]
  · have hm := forall_marked_iff variants (·.name) fun v => payloadFlaws m d.size v.payload = []
    rw [if_neg (by simpa using he), List.append_eq_nil_iff, List.flatMap_eq_nil_iff]
    simp only [List.map_eq_nil_iff, List.append_eq_nil_iff]
    rw [← hm]
    simp [he, UInt32.not_lt]

theorem edgeErrors_eq_nil_iff (m : Module) (g : List (List Handle)) (h dep : Handle) :
    (edgeErrors m g h dep []).1 = [] ↔ dep < h := by
  unfold edgeErrors
  by_cases hd : dep < h
  · simp [hd]
  · simp only [if_neg hd]
    cases path? g dep h <;> simp [hd]

theorem edgeErrors_of_lt (m : Module) (g : List (List Handle)) {h dep : Handle} (hd : dep < h)
    (reported : List (List Handle)) : edgeErrors m g h dep reported = ([], reported) := by
  simp [edgeErrors, hd]

section order

variable (m : Module) (g : List (List Handle))

def orderStep (s : List ValidationError × List (List Handle)) (e : Handle × Handle) :
    List ValidationError × List (List Handle) :=
  (s.1 ++ (edgeErrors m g e.1 e.2 s.2).1, (edgeErrors m g e.1 e.2 s.2).2)

theorem orderStep_foldl_ne_nil (es : List (Handle × Handle))
    (s : List ValidationError × List (List Handle)) (hs : s.1 ≠ []) :
    (es.foldl (orderStep m g) s).1 ≠ [] := by
  induction es generalizing s with
  | nil => exact hs
  | cons e es ih => exact ih _ (List.append_ne_nil_of_left_ne_nil hs _)

theorem orderStep_foldl_eq_nil_iff (es : List (Handle × Handle)) :
    (es.foldl (orderStep m g) ([], [])).1 = [] ↔ ∀ e ∈ es, e.2 < e.1 := by
  induction es with
  | nil => simp
  | cons e es ih =>
    rw [List.foldl_cons, List.forall_mem_cons]
    by_cases hd : e.2 < e.1
    · have hstep : orderStep m g ([], []) e = ([], []) := by
        simp [orderStep, edgeErrors_of_lt m g hd]
      rw [hstep, ih, and_iff_right hd]
    · have hstep : (orderStep m g ([], []) e).1 ≠ [] := by
        simpa [orderStep, edgeErrors_eq_nil_iff] using hd
      simp [orderStep_foldl_ne_nil m g es _ hstep, hd]

end order

theorem orderErrors_eq_nil_iff (m : Module) :
    orderErrors m = [] ↔ ∀ e ∈ allEdges (graph m), e.2 < e.1 := by
  rw [← orderStep_foldl_eq_nil_iff m (graph m)]
  rfl

theorem mem_allEdges_iff {m : Module} {h t : Handle} :
    (h, t) ∈ allEdges (graph m) ↔
      ∃ (i : Nat) (d : TypeDef), m.defs[i]? = some d ∧ h = UInt32.ofNat i ∧
        t ∈ dependencies m d := by
  simp only [allEdges, graph, List.mem_flatMap, List.mem_map, Prod.mk.injEq, Prod.exists,
    List.mem_zipIdx_iff_getElem?, List.getElem?_map, Option.map_eq_some_iff]
  constructor
  · rintro ⟨deps, i, ⟨d, hd, rfl⟩, t', ht, rfl, rfl⟩
    exact ⟨i, d, hd, rfl, ht⟩
  · rintro ⟨i, d, hd, rfl, ht⟩
    exact ⟨_, i, ⟨d, hd, rfl⟩, t, ht, rfl, rfl⟩

theorem orderErrors_eq_nil_iff_earlier (m : Module) :
    orderErrors m = [] ↔ ∀ (i : Nat) (d : TypeDef), m.defs[i]? = some d →
      ∀ t ∈ dependencies m d, t < UInt32.ofNat i := by
  rw [orderErrors_eq_nil_iff]
  constructor
  · intro hall i d hd t ht
    exact hall (UInt32.ofNat i, t) (mem_allEdges_iff.mpr ⟨i, d, hd, rfl, ht⟩)
  · rintro hall ⟨h, t⟩ he
    obtain ⟨i, d, hd, rfl, ht⟩ := mem_allEdges_iff.mp he
    exact hall i d hd t ht

theorem sizeErrors_eq_nil_iff (size : UInt32) (name : String) :
    (if size % 4 = 0 then [] else [({ flaw := .unalignedSize size, type := name } :
      ValidationError)]) = [] ↔ 4 ∣ size.toNat := by
  have ha : size % 4 = 0 ↔ 4 ∣ size.toNat := by
    rw [← UInt32.toNat_inj, Word.toNat_mod_four, Nat.dvd_iff_mod_eq_zero]
    rfl
  rw [← ha]
  simp

section accepted

variable {m : Module} {d : TypeDef}

theorem validate_eq_nil_iff :
    m.validate = [] ↔ (m.defs.map (·.name)).Nodup ∧ (∀ d ∈ m.defs, defErrors m d = []) ∧
      ∀ (i : Nat) (d : TypeDef), m.defs[i]? = some d → ∀ t ∈ dependencies m d,
        t < UInt32.ofNat i := by
  rw [Module.validate, List.append_eq_nil_iff, List.append_eq_nil_iff, List.flatMap_eq_nil_iff,
    nameErrors_eq_nil_iff, orderErrors_eq_nil_iff_earlier, and_assoc]

theorem defErrors_eq_nil (hv : m.validate = []) (hd : d ∈ m.defs) : defErrors m d = [] :=
  (validate_eq_nil_iff.mp hv).2.1 d hd

variable (he : defErrors m d = [])
include he

theorem size_aligned : 4 ∣ d.size.toNat :=
  (sizeErrors_eq_nil_iff _ _).mp (List.append_eq_nil_iff.mp he).1

theorem fieldFlaws_eq_nil {fields : List Field} (hb : d.body = .struct fields) {f : Field}
    (hf : f ∈ fields) : fieldFlaws m d.size f = [] := by
  have hs := (List.append_eq_nil_iff.mp he).2
  rw [hb] at hs
  exact ((structErrors_eq_nil_iff m d fields).mp hs).2.2.1 f hf

theorem payloadFlaws_eq_nil {variants : List Variant} (hb : d.body = .union variants) {v : Variant}
    (hv : v ∈ variants) : payloadFlaws m d.size v.payload = [] := by
  have hs := (List.append_eq_nil_iff.mp he).2
  rw [hb] at hs
  exact ((unionErrors_eq_nil_iff m d variants).mp hs).2.2.2 v hv

end accepted

end WordLayout.Validation
