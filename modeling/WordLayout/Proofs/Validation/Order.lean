import Mathlib
import WordLayout.Proofs.Validation.Search
import WordLayout.Proofs.Validation.WellFormed

/-!
What validation says about the order of definitions. The members that hold a definition inline make
a graph. An edge that leads to a later definition is a forward reference, unless it leads back to
where it starts; then it belongs to a cycle. Each set of definitions is reported as a cycle only
once, which hides no forward reference, and never the last cycle.
-/

namespace WordLayout

def Payload.target? : Payload → Option Handle
  | .struct _ target => some target
  | _ => none

namespace Validation

instance (m : Module) (ty : Ty) : Decidable (ty.Known m) :=
  decidable_of_iff _ (typeFlaw?_eq_none_iff m ty)

/-- How many members of a definition hold the definition `t` inline: fields of the size that their
type has, and payloads. A target that does not exist or is a union does not count. -/
def Body.uses (m : Module) (t : Handle) : Body → Nat
  | .struct fields =>
    fields.countP fun f => f.ty = .inline t ∧ (Ty.inline t).Known m ∧ f.size = m.sizeOf f.ty
  | .union variants =>
    variants.countP fun v => v.payload.target? = some t ∧ (Ty.inline t).Known m
  | .missing => 0

def uses (m : Module) (h d : Handle) : Nat :=
  match m.def? h with
  | some e => Body.uses m d e.body
  | none => 0

def Inlines (m : Module) (h d : Handle) : Prop := 0 < uses m h d

def Reaches (m : Module) (h d : Handle) : Prop := Relation.ReflTransGen (Inlines m) h d

/-- A walk from `h` back to `h` that passes every other definition at most once. -/
structure ClosedWalk (R : Handle → Handle → Prop) (h : Handle) (walk : List Handle) : Prop where
  starts : walk.head? = some h
  ends : walk.getLast? = some h
  moves : 2 ≤ walk.length
  steps : walk.IsChain R
  once : walk.tail.Nodup

def laterError (m : Module) (e : Handle × Handle) : ValidationError :=
  { flaw := .forwardReference (m.nameOf e.2), type := m.nameOf e.1 }

def cycleError (m : Module) (h : Handle) (walk : List Handle) : ValidationError :=
  { flaw := .cycle (walk.map m.nameOf), type := m.nameOf h }

section graph

variable {m : Module}

theorem count_dependencies (m : Module) (d : TypeDef) (t : Handle) :
    (dependencies m d).count t = Body.uses m t d.body := by
  unfold dependencies Body.uses List.count
  cases d.body with
  | struct fields =>
    simp only [List.countP_filterMap]
    apply List.countP_congr
    intro f _
    cases hty : f.ty with
    | inline u =>
      by_cases hut : u = t
      · subst hut
        have hsized : isSized m f = true ↔
            (Ty.inline u).Known m ∧ f.size = m.sizeOf (.inline u) := by
          simp [isSized, hty, ← typeFlaw?_eq_none_iff]
        by_cases hs : isSized m f = true <;> simp [hs, ← hsized]
      · by_cases hs : isSized m f = true <;> simp [hs, hut]
    | _ => simp
  | union variants =>
    simp only [List.countP_filterMap]
    apply List.countP_congr
    intro v _
    cases hp : v.payload with
    | struct offset u =>
      by_cases hut : u = t
      · subst hut
        have hknown : targetFlaw? m .inline u = none ↔ (Ty.inline u).Known m :=
          typeFlaw?_eq_none_iff m (.inline u)
        by_cases hf : targetFlaw? m .inline u = none <;> simp [Payload.target?, hf, ← hknown]
      · by_cases hf : targetFlaw? m .inline u = none <;> simp [Payload.target?, hf, hut]
    | _ => simp [Payload.target?]
  | missing => rfl

theorem count_edges (m : Module) (h d : Handle) : (edges (graph m) h).count d = uses m h d := by
  rw [edges, graph, List.getElem?_map, uses, Module.def?]
  cases m.defs[h.toNat]? with
  | none => rfl
  | some e => exact count_dependencies m e d

theorem edge_eq_inlines (m : Module) : Edge (graph m) = Inlines m := by
  funext h d
  rw [Edge, Inlines, ← count_edges, List.count_pos_iff]

theorem path?_eq_none_iff_reaches {h goal : Handle} :
    path? (graph m) h goal = none ↔ ¬ Reaches m h goal := by
  rw [path?_eq_none_iff, edge_eq_inlines]
  rfl

instance (m : Module) (h d : Handle) : Decidable (Reaches m h d) :=
  decidable_of_iff (path? (graph m) h d ≠ none) (by rw [ne_eq, path?_eq_none_iff_reaches, not_not])

theorem count_map_pair (i : Nat) (hi : i < 2 ^ 32) (deps : List Handle) (h d : Handle) :
    (deps.map fun dep => (UInt32.ofNat i, dep)).count (h, d) =
      if i = h.toNat then deps.count d else 0 := by
  by_cases hih : i = h.toNat
  · subst hih
    rw [if_pos rfl, UInt32.ofNat_toNat]
    exact List.count_map_of_injective deps _ (fun a b hab => (Prod.mk.inj hab).2) d
  · rw [if_neg hih, List.count_eq_zero]
    intro hmem
    obtain ⟨dep, -, heq⟩ := List.mem_map.mp hmem
    have hnat := congrArg UInt32.toNat (Prod.mk.inj heq).1
    rw [UInt32.toNat_ofNat_of_lt' (by exact hi)] at hnat
    exact hih hnat

theorem count_edges_from (g : List (List Handle)) (k : Nat) (hk : k + g.length ≤ 2 ^ 32)
    (h d : Handle) :
    ((g.zipIdx k).flatMap fun (deps, i) => deps.map fun dep => (UInt32.ofNat i, dep)).count (h, d) =
      if k ≤ h.toNat then (g[h.toNat - k]?.getD []).count d else 0 := by
  induction g generalizing k with
  | nil => simp
  | cons deps g ih =>
    rw [List.length_cons] at hk
    rw [List.zipIdx_cons, List.flatMap_cons, List.count_append, ih (k + 1) (by omega),
      count_map_pair k (by omega)]
    rcases Nat.lt_trichotomy k h.toNat with hlt | heq | hgt
    · rw [if_neg (by omega), if_pos (by omega), if_pos (by omega),
        show h.toNat - k = h.toNat - (k + 1) + 1 by omega, List.getElem?_cons_succ, Nat.zero_add]
    · rw [if_pos heq, if_neg (by omega), if_pos (by omega), heq, Nat.sub_self]
      simp
    · rw [if_neg (by omega), if_neg (by omega), if_neg (by omega)]

theorem count_allEdges (hn : m.defs.length ≤ 2 ^ 32) (h d : Handle) :
    (allEdges (graph m)).count (h, d) = uses m h d := by
  have hlen : 0 + (graph m).length ≤ 2 ^ 32 := by simpa [graph] using hn
  rw [allEdges, count_edges_from (graph m) 0 hlen, if_pos (Nat.zero_le _), ← count_edges]
  rfl

theorem mem_allEdges_iff_inlines (hn : m.defs.length ≤ 2 ^ 32) {h d : Handle} :
    (h, d) ∈ allEdges (graph m) ↔ Inlines m h d := by
  rw [← List.count_pos_iff, count_allEdges hn]
  rfl

theorem exists_up_of_cycle {R : Handle → Handle → Prop} {h : Handle}
    (hc : Relation.TransGen R h h) :
    ∃ a b, R a b ∧ ¬ b < a ∧ Relation.ReflTransGen R b a := by
  by_contra hnone
  push Not at hnone
  have hdown : ∀ x, Relation.TransGen R h x → Relation.ReflTransGen R x h → x < h := by
    intro x hx
    induction hx with
    | single hedge =>
      intro hback
      by_contra hle
      exact hnone _ _ hedge hle hback
    | @tail b c hb hedge ih =>
      intro hback
      have hbh : b < h := ih (Relation.ReflTransGen.head hedge hback)
      have hcb : c < b := by
        by_contra hle
        exact hnone _ _ hedge hle (hback.trans hb.to_reflTransGen)
      exact UInt32.lt_trans hcb hbh
  exact UInt32.lt_irrefl h (hdown h hc .refl)

end graph

section steps

variable {m : Module} {g : List (List Handle)} {e : Handle × Handle}
  {s t : List ValidationError × List (List Handle)}

inductive EdgeStep (m : Module) (g : List (List Handle)) (e : Handle × Handle)
    (s : List ValidationError × List (List Handle)) :
    List ValidationError × List (List Handle) → Prop
  | earlier (hlt : e.2 < e.1) : EdgeStep m g e s s
  | known {path : List Handle} (hle : ¬ e.2 < e.1) (hp : path? g e.2 e.1 = some path)
      (hk : cycleKey path ∈ s.2) : EdgeStep m g e s s
  | cycle {path : List Handle} (hle : ¬ e.2 < e.1) (hp : path? g e.2 e.1 = some path) :
      EdgeStep m g e s (s.1 ++ [cycleError m e.1 (e.1 :: path)], cycleKey path :: s.2)
  | later (hlt : e.1 < e.2) (hp : path? g e.2 e.1 = none) :
      EdgeStep m g e s (s.1 ++ [laterError m e], s.2)

theorem lt_of_path?_eq_none (hle : ¬ e.2 < e.1) (hp : path? g e.2 e.1 = none) : e.1 < e.2 := by
  have hne : e.1 ≠ e.2 := by
    intro heq
    rw [heq, path?_eq_none_iff] at hp
    exact hp .refl
  exact UInt32.lt_of_le_of_ne (UInt32.not_lt.mp hle) hne

theorem edgeStep_orderStep (m : Module) (g : List (List Handle)) (e : Handle × Handle)
    (s : List ValidationError × List (List Handle)) : EdgeStep m g e s (orderStep m g s e) := by
  unfold orderStep edgeErrors
  by_cases hlt : e.2 < e.1
  · simp only [if_pos hlt, List.append_nil]
    exact .earlier hlt
  · simp only [if_neg hlt]
    cases hp : path? g e.2 e.1 with
    | none => exact .later (lt_of_path?_eq_none hlt hp) hp
    | some path =>
      by_cases hk : cycleKey path ∈ s.2
      · simp only [List.contains_eq_mem, hk, decide_true, if_true, List.append_nil]
        exact .known hlt hp hk
      · simp only [List.contains_eq_mem, hk, decide_false, Bool.false_eq_true, if_false]
        exact .cycle hlt hp

def HasCycle (errors : List ValidationError) : Prop := ∃ x ∈ errors, x.flaw.kind = .cycle

def IsLater (g : List (List Handle)) (e : Handle × Handle) : Prop :=
  e.1 < e.2 ∧ path? g e.2 e.1 = none

instance : Decidable (IsLater g e) := inferInstanceAs (Decidable (_ ∧ _))

theorem EdgeStep.filter_later (hs : EdgeStep m g e s t) :
    t.1.filter (fun x => x.flaw.kind = .forwardReference) =
      s.1.filter (fun x => x.flaw.kind = .forwardReference) ++
        ([e].filter (IsLater g ·)).map (laterError m) := by
  cases hs with
  | earlier hlt =>
    have hnot : ¬ IsLater g e := fun h => UInt32.lt_asymm hlt h.1
    simp [hnot]
  | known _ hp _ | cycle _ hp =>
    have hnot : ¬ IsLater g e := fun h => by simp [IsLater, hp] at h
    simp [hnot, cycleError, Flaw.kind]
  | later hlt hp =>
    have hyes : IsLater g e := ⟨hlt, hp⟩
    simp [hyes, laterError, Flaw.kind]

theorem foldl_filter_later (es : List (Handle × Handle))
    (s : List ValidationError × List (List Handle)) :
    (es.foldl (orderStep m g) s).1.filter (fun x => x.flaw.kind = .forwardReference) =
      s.1.filter (fun x => x.flaw.kind = .forwardReference) ++
        (es.filter (IsLater g ·)).map (laterError m) := by
  induction es generalizing s with
  | nil => simp
  | cons e es ih =>
    rw [List.foldl_cons, ih, (edgeStep_orderStep m g e s).filter_later, List.append_assoc,
      ← List.map_append, ← List.filter_append, List.singleton_append]

theorem EdgeStep.mem_cases (hs : EdgeStep m g e s t) {x : ValidationError} (hx : x ∈ t.1) :
    x ∈ s.1 ∨ x = laterError m e ∨
      ∃ path, ¬ e.2 < e.1 ∧ path? g e.2 e.1 = some path ∧ x = cycleError m e.1 (e.1 :: path) := by
  cases hs with
  | earlier _ | known _ _ _ => exact .inl hx
  | cycle hle hp =>
    rcases List.mem_append.mp hx with hx | hx
    · exact .inl hx
    · exact .inr (.inr ⟨_, hle, hp, List.mem_singleton.mp hx⟩)
  | later hlt hp =>
    rcases List.mem_append.mp hx with hx | hx
    · exact .inl hx
    · exact .inr (.inl (List.mem_singleton.mp hx))

theorem foldl_mem_cases (es : List (Handle × Handle))
    (s : List ValidationError × List (List Handle)) {x : ValidationError}
    (hx : x ∈ (es.foldl (orderStep m g) s).1) :
    x ∈ s.1 ∨ ∃ e ∈ es, x = laterError m e ∨
      ∃ path, ¬ e.2 < e.1 ∧ path? g e.2 e.1 = some path ∧ x = cycleError m e.1 (e.1 :: path) := by
  induction es generalizing s with
  | nil => exact .inl hx
  | cons e es ih =>
    rcases ih (orderStep m g s e) hx with hx | ⟨e', he', hcases⟩
    · rcases (edgeStep_orderStep m g e s).mem_cases hx with hx | hcases
      · exact .inl hx
      · exact .inr ⟨e, List.mem_cons_self, hcases⟩
    · exact .inr ⟨e', List.mem_cons_of_mem _ he', hcases⟩

theorem EdgeStep.hasCycle (hs : EdgeStep m g e s t) (hrep : s.2 ≠ [] → HasCycle s.1) :
    (t.2 ≠ [] → HasCycle t.1) ∧ (HasCycle s.1 → HasCycle t.1) ∧
      (¬ e.2 < e.1 → path? g e.2 e.1 ≠ none → HasCycle t.1) := by
  cases hs with
  | earlier hlt => exact ⟨hrep, id, fun hle _ => absurd hlt hle⟩
  | known _ _ hk =>
    have hcycle := hrep (List.ne_nil_of_mem hk)
    exact ⟨hrep, id, fun _ _ => hcycle⟩
  | cycle hle hp =>
    rename_i path
    have hcycle : HasCycle (s.1 ++ [cycleError m e.1 (e.1 :: path)]) :=
      ⟨_, List.mem_append_right _ (List.mem_singleton_self _), rfl⟩
    exact ⟨fun _ => hcycle, fun _ => hcycle, fun _ _ => hcycle⟩
  | later _ hp =>
    have hmono : HasCycle s.1 → HasCycle (s.1 ++ [laterError m e]) := by
      rintro ⟨x, hx, hkind⟩
      exact ⟨x, List.mem_append_left _ hx, hkind⟩
    exact ⟨fun hne => hmono (hrep hne), hmono, fun _ hne => absurd hp hne⟩

theorem foldl_hasCycle (es : List (Handle × Handle))
    (s : List ValidationError × List (List Handle)) (hrep : s.2 ≠ [] → HasCycle s.1)
    (h : HasCycle s.1 ∨ ∃ e ∈ es, ¬ e.2 < e.1 ∧ path? g e.2 e.1 ≠ none) :
    HasCycle (es.foldl (orderStep m g) s).1 := by
  induction es generalizing s with
  | nil =>
    rcases h with h | ⟨e, he, -⟩
    · exact h
    · cases he
  | cons e es ih =>
    obtain ⟨hrep', hmono, hnew⟩ := (edgeStep_orderStep m g e s).hasCycle hrep
    apply ih _ hrep'
    rcases h with h | ⟨e', he', hle, hp⟩
    · exact .inl (hmono h)
    · rcases List.mem_cons.mp he' with rfl | he'
      · exact .inl (hnew hle hp)
      · exact .inr ⟨e', he', hle, hp⟩

end steps

section kinds

def OfOrder (kind : FlawKind) : Prop := kind = .forwardReference ∨ kind = .cycle

instance (kind : FlawKind) : Decidable (OfOrder kind) := inferInstanceAs (Decidable (_ ∨ _))

theorem not_ofOrder_target {m : Module} {usage : Usage} {t : Handle} {flaw : Flaw}
    (h : targetFlaw? m usage t = some flaw) : ¬ OfOrder flaw.kind := by
  unfold targetFlaw? at h
  split at h
  · obtain rfl := Option.some.inj h
    simp [OfOrder, Flaw.kind]
  · split at h
    · obtain rfl := Option.some.inj h
      simp [OfOrder, Flaw.kind]
    · cases h

theorem not_ofOrder_type {m : Module} {ty : Ty} {flaw : Flaw} (h : typeFlaw? m ty = some flaw) :
    ¬ OfOrder flaw.kind := by
  cases ty with
  | scalar k =>
    simp only [typeFlaw?, Option.ite_none_left_eq_some, Option.some.injEq] at h
    simp [← h.2, OfOrder, Flaw.kind]
  | vector k lanes =>
    simp only [typeFlaw?] at h
    split at h
    · simp [← Option.some.inj h, OfOrder, Flaw.kind]
    · simp only [Option.ite_none_left_eq_some, Option.some.injEq] at h
      simp [← h.2, OfOrder, Flaw.kind]
  | inline t => exact not_ofOrder_target h
  | ref t => exact not_ofOrder_target h
  | missing => simp [← Option.some.inj h, OfOrder, Flaw.kind]

theorem not_ofOrder_field {m : Module} {size : UInt32} {f : Field} {flaw : Flaw}
    (h : flaw ∈ fieldFlaws m size f) : ¬ OfOrder flaw.kind := by
  unfold fieldFlaws at h
  split at h
  · rename_i flaw' hty
    rw [List.mem_singleton.mp h]
    exact not_ofOrder_type hty
  · split at h
    · simp [List.mem_singleton.mp h, OfOrder, Flaw.kind]
    · rcases List.mem_append.mp h with h | h
      · split at h
        · cases h
        · simp [List.mem_singleton.mp h, OfOrder, Flaw.kind]
      · split at h
        · simp [List.mem_singleton.mp h, OfOrder, Flaw.kind]
        · cases h

theorem not_ofOrder_payload {m : Module} {size : UInt32} {p : Payload} {flaw : Flaw}
    (h : flaw ∈ payloadFlaws m size p) : ¬ OfOrder flaw.kind := by
  cases p with
  | struct offset t =>
    simp only [payloadFlaws] at h
    split at h
    · rename_i flaw' ht
      rw [List.mem_singleton.mp h]
      exact not_ofOrder_target ht
    · split at h
      · simp [List.mem_singleton.mp h, OfOrder, Flaw.kind]
      · split at h
        · simp [List.mem_singleton.mp h, OfOrder, Flaw.kind]
        · split at h
          · simp [List.mem_singleton.mp h, OfOrder, Flaw.kind]
          · cases h
  | _ => cases h

theorem not_ofOrder_name {m : Module} {x : ValidationError} (h : x ∈ nameErrors m) :
    ¬ OfOrder x.flaw.kind := by
  obtain ⟨⟨name, again⟩, -, hx⟩ := List.mem_filterMap.mp h
  simp only [Option.ite_none_right_eq_some, Option.some.injEq] at hx
  simp [← hx.2, OfOrder, Flaw.kind]

theorem not_ofOrder_struct {m : Module} {d : TypeDef} {fields : List Field} {x : ValidationError}
    (h : x ∈ structErrors m d fields) : ¬ OfOrder x.flaw.kind := by
  unfold structErrors at h
  split at h
  · simp [List.mem_singleton.mp h, OfOrder, Flaw.kind]
  · rcases List.mem_append.mp h with h | h
    · obtain ⟨⟨f, again⟩, -, hx⟩ := List.mem_flatMap.mp h
      obtain ⟨flaw, hflaw, rfl⟩ := List.mem_map.mp hx
      rcases List.mem_append.mp hflaw with hflaw | hflaw
      · split at hflaw
        · simp [List.mem_singleton.mp hflaw, OfOrder, Flaw.kind]
        · cases hflaw
      · exact not_ofOrder_field hflaw
    · obtain ⟨_, -, rfl⟩ := List.mem_map.mp h
      simp [OfOrder, Flaw.kind]

theorem not_ofOrder_union {m : Module} {d : TypeDef} {variants : List Variant}
    {x : ValidationError} (h : x ∈ unionErrors m d variants) : ¬ OfOrder x.flaw.kind := by
  unfold unionErrors at h
  split at h
  · simp [List.mem_singleton.mp h, OfOrder, Flaw.kind]
  · rcases List.mem_append.mp h with h | h
    · split at h
      · simp [List.mem_singleton.mp h, OfOrder, Flaw.kind]
      · cases h
    · obtain ⟨⟨v, again⟩, -, hx⟩ := List.mem_flatMap.mp h
      obtain ⟨flaw, hflaw, rfl⟩ := List.mem_map.mp hx
      rcases List.mem_append.mp hflaw with hflaw | hflaw
      · split at hflaw
        · simp [List.mem_singleton.mp hflaw, OfOrder, Flaw.kind]
        · cases hflaw
      · exact not_ofOrder_payload hflaw

theorem not_ofOrder_def {m : Module} {d : TypeDef} {x : ValidationError}
    (h : x ∈ defErrors m d) : ¬ OfOrder x.flaw.kind := by
  rcases List.mem_append.mp h with h | h
  · split at h
    · cases h
    · simp [List.mem_singleton.mp h, OfOrder, Flaw.kind]
  · split at h
    · exact not_ofOrder_struct h
    · exact not_ofOrder_union h
    · simp [List.mem_singleton.mp h, OfOrder, Flaw.kind]

theorem ofOrder_of_mem_orderErrors {m : Module} {x : ValidationError} (h : x ∈ orderErrors m) :
    OfOrder x.flaw.kind := by
  rcases foldl_mem_cases (allEdges (graph m)) ([], []) h with h | ⟨e, -, rfl | ⟨path, -, -, rfl⟩⟩
  · cases h
  · exact .inl rfl
  · exact .inr rfl

theorem filter_validate (m : Module) {P : ValidationError → Bool}
    (hP : ∀ x, P x = true → OfOrder x.flaw.kind) : m.validate.filter P = (orderErrors m).filter P := by
  have hnames : (nameErrors m).filter P = [] := by
    rw [List.filter_eq_nil_iff]
    intro x hx hp
    exact not_ofOrder_name hx (hP x hp)
  have hdefs : (m.defs.flatMap (defErrors m)).filter P = [] := by
    rw [List.filter_eq_nil_iff]
    intro x hx hp
    obtain ⟨d, -, hx⟩ := List.mem_flatMap.mp hx
    exact not_ofOrder_def hx (hP x hp)
  rw [Module.validate, List.filter_append, List.filter_append, hnames, hdefs]
  rfl

theorem mem_orderErrors_iff {m : Module} {x : ValidationError} :
    x ∈ orderErrors m ↔ x ∈ m.validate ∧ OfOrder x.flaw.kind := by
  have h := filter_validate m (P := fun x => OfOrder x.flaw.kind) fun x hx => of_decide_eq_true hx
  have hmem : x ∈ m.validate.filter (fun x => OfOrder x.flaw.kind) ↔
      x ∈ (orderErrors m).filter (fun x => OfOrder x.flaw.kind) := by rw [h]
  simp only [List.mem_filter, decide_eq_true_eq] at hmem
  rw [hmem]
  exact ⟨fun hx => ⟨hx, ofOrder_of_mem_orderErrors hx⟩, fun hx => hx.1⟩

end kinds

section diagnostics

variable {m : Module}

theorem no_orderErrors_iff (hn : m.defs.length ≤ 2 ^ 32) :
    (∀ x ∈ m.validate, x.flaw.kind ≠ .forwardReference ∧ x.flaw.kind ≠ .cycle) ↔
      ∀ h d, Inlines m h d → d < h := by
  have hnil : (∀ x ∈ m.validate, x.flaw.kind ≠ .forwardReference ∧ x.flaw.kind ≠ .cycle) ↔
      orderErrors m = [] := by
    rw [List.eq_nil_iff_forall_not_mem]
    apply forall_congr'
    intro x
    rw [mem_orderErrors_iff, not_and, OfOrder, not_or]
  rw [hnil, orderErrors_eq_nil_iff]
  constructor
  · intro hall h d hd
    exact hall (h, d) ((mem_allEdges_iff_inlines hn).mpr hd)
  · rintro hall ⟨h, d⟩ he
    exact hall h d ((mem_allEdges_iff_inlines hn).mp he)

theorem closedWalk_of_path? {h d : Handle} {path : List Handle} (hd : Inlines m h d)
    (hp : path? (graph m) d h = some path) : ClosedWalk (Inlines m) h (h :: path) := by
  obtain ⟨hhead, hlast, hchain, hnodup⟩ := path?_sound hp
  obtain ⟨tail, rfl⟩ := List.head?_eq_some_iff.mp hhead
  rw [edge_eq_inlines] at hchain
  refine ⟨rfl, ?_, ?_, List.isChain_cons_cons.mpr ⟨hd, hchain⟩, hnodup⟩
  · rw [List.getLast?_cons_cons, hlast]
  · simp

theorem exists_closedWalk (hn : m.defs.length ≤ 2 ^ 32) {x : ValidationError}
    (hx : x ∈ m.validate) (hkind : x.flaw.kind = .cycle) :
    ∃ h walk, ClosedWalk (Inlines m) h walk ∧ x = cycleError m h walk := by
  have hx := mem_orderErrors_iff.mpr ⟨hx, .inr hkind⟩
  rcases foldl_mem_cases (allEdges (graph m)) ([], []) hx with
    hx | ⟨e, he, rfl | ⟨path, -, hp, rfl⟩⟩
  · cases hx
  · cases hkind
  · have hd := (mem_allEdges_iff_inlines hn).mp he
    exact ⟨e.1, e.1 :: path, closedWalk_of_path? hd hp, rfl⟩

theorem transGen_of_closedWalk {R : Handle → Handle → Prop} {h : Handle} {walk : List Handle}
    (hw : ClosedWalk R h walk) : Relation.TransGen R h h := by
  obtain ⟨tail, rfl⟩ := List.head?_eq_some_iff.mp hw.starts
  cases tail with
  | nil => simpa using hw.moves
  | cons d tail =>
    obtain ⟨hd, hchain⟩ := List.isChain_cons_cons.mp hw.steps
    have hlast := hw.ends
    rw [List.getLast?_cons_cons, List.getLast?_eq_some_getLast (List.cons_ne_nil d tail)] at hlast
    exact Relation.TransGen.head' hd
      (List.relationReflTransGen_of_exists_isChain_cons tail hchain (Option.some.inj hlast))

theorem hasCycle_iff (hn : m.defs.length ≤ 2 ^ 32) :
    HasCycle m.validate ↔ ∃ h, Relation.TransGen (Inlines m) h h := by
  constructor
  · rintro ⟨x, hx, hkind⟩
    obtain ⟨h, walk, hw, -⟩ := exists_closedWalk hn hx hkind
    exact ⟨h, transGen_of_closedWalk hw⟩
  · rintro ⟨h, hc⟩
    obtain ⟨a, b, hab, hle, hback⟩ := exists_up_of_cycle hc
    have hp : path? (graph m) b a ≠ none := by
      rw [ne_eq, path?_eq_none_iff_reaches, not_not]
      exact hback
    have hmem := (mem_allEdges_iff_inlines hn).mpr hab
    obtain ⟨x, hx, hkind⟩ := foldl_hasCycle (m := m) (g := graph m) (allEdges (graph m)) ([], [])
      (fun hne => absurd rfl hne) (.inr ⟨(a, b), hmem, hle, hp⟩)
    exact ⟨x, (mem_orderErrors_iff.mp hx).1, hkind⟩

theorem filter_forward (m : Module) :
    m.validate.filter (fun x => x.flaw.kind = .forwardReference) =
      ((allEdges (graph m)).filter fun e => e.1 < e.2 ∧ ¬ Reaches m e.2 e.1).map (laterError m) := by
  rw [filter_validate m fun x hx => .inl (of_decide_eq_true hx)]
  have hfold := foldl_filter_later (m := m) (g := graph m) (allEdges (graph m)) ([], [])
  have hlater : ∀ e, IsLater (graph m) e ↔ e.1 < e.2 ∧ ¬ Reaches m e.2 e.1 := by
    intro e
    rw [IsLater, path?_eq_none_iff_reaches]
  simp only [hlater] at hfold
  exact hfold

/-- What validation reports about the order of definitions, for every module whose definitions have
handles of their own: the search for cycles ends, there is nothing to report exactly if every
definition holds earlier ones only, there is a cycle among the errors exactly if there is one in the
graph, each forward reference stands for one member, and every cycle that is named is one. -/
theorem order_diagnostics_exact (hn : m.defs.length ≤ 2 ^ 32) :
    (∀ h goal, ∃ visited,
      Searches (graph m) goal [] [h] visited (path? (graph m) h goal)) ∧
    ((∀ x ∈ m.validate, x.flaw.kind ≠ .forwardReference ∧ x.flaw.kind ≠ .cycle) ↔
      ∀ h d, Inlines m h d → d < h) ∧
    ((∃ x ∈ m.validate, x.flaw.kind = .cycle) ↔ ∃ h, Relation.TransGen (Inlines m) h h) ∧
    (∃ edges : List (Handle × Handle), (∀ h d, edges.count (h, d) = uses m h d) ∧
      m.validate.filter (fun x => x.flaw.kind = .forwardReference) =
        (edges.filter fun e => e.1 < e.2 ∧ ¬ Reaches m e.2 e.1).map (laterError m)) ∧
    ∀ x ∈ m.validate, x.flaw.kind = .cycle →
      ∃ h walk, ClosedWalk (Inlines m) h walk ∧ x = cycleError m h walk := by
  refine ⟨path?_searches (graph m), no_orderErrors_iff hn, hasCycle_iff hn, ?_, ?_⟩
  · exact ⟨allEdges (graph m), count_allEdges hn, filter_forward m⟩
  · intro x hx hkind
    exact exists_closedWalk hn hx hkind

def loopModule : Module :=
  { name := "loop", writable := false
    defs :=
      [{ name := "Node", size := 16
         body := .struct [⟨"pair", 0, .inline 1, 8⟩, ⟨"left", 8, .inline 2, 4⟩,
           ⟨"right", 12, .inline 2, 4⟩] },
        { name := "Pair", size := 8, body := .struct [⟨"back", 0, .inline 0, 16⟩] },
        { name := "Leaf", size := 4, body := .struct [⟨"x", 0, .scalar .u32, 4⟩] },
        { name := "Self", size := 4, body := .struct [⟨"again", 0, .inline 3, 4⟩] }] }

theorem order_diagnostics_loop :
    loopModule.defs.length ≤ 2 ^ 32 ∧
      (loopModule.validate.filter fun x => OfOrder x.flaw.kind) =
        [cycleError loopModule 0 [0, 1, 0], laterError loopModule (0, 2),
          laterError loopModule (0, 2), cycleError loopModule 3 [3, 3]] ∧
      (∃ h, Relation.TransGen (Inlines loopModule) h h) ∧
      ¬ ∀ h d, Inlines loopModule h d → d < h := by
  have hn : loopModule.defs.length ≤ 2 ^ 32 := by decide
  have hreport : (loopModule.validate.filter fun x => OfOrder x.flaw.kind) =
      [cycleError loopModule 0 [0, 1, 0], laterError loopModule (0, 2),
        laterError loopModule (0, 2), cycleError loopModule 3 [3, 3]] := by cbv
  have hmem : cycleError loopModule 3 [3, 3] ∈ loopModule.validate := by
    apply List.mem_of_mem_filter (p := fun x => OfOrder x.flaw.kind)
    rw [hreport]
    simp
  obtain ⟨-, hnone, hcycles, -⟩ := order_diagnostics_exact hn
  refine ⟨hn, hreport, hcycles.mp ⟨_, hmem, rfl⟩, fun hall => ?_⟩
  exact (hnone.mpr hall _ hmem).2 rfl

end diagnostics

end Validation

end WordLayout
