import Mathlib

namespace WordLayout

variable {ε α β σ : Type}

theorem bind_eq_ok_iff {x : Except ε α} {f : α → Except ε β} {b : β} :
    x >>= f = .ok b ↔ ∃ a, x = .ok a ∧ f a = .ok b := by
  cases x with
  | error e => simp [Bind.bind, Except.bind]
  | ok a => simp [Bind.bind, Except.bind]

@[simp]
theorem ok_bind (a : α) (f : α → Except ε β) : (Except.ok a >>= f) = f a := rfl

@[simp]
theorem throw_bind (e : ε) (f : α → Except ε β) : ((throw e : Except ε α) >>= f) = .error e := rfl

@[simp]
theorem pure_eq_ok (a : α) : (pure a : Except ε α) = .ok a := rfl

theorem bind_congr_ok {x : Except ε α} {f g : α → Except ε β} (h : ∀ a, x = .ok a → f a = g a) :
    x >>= f = x >>= g := by
  cases x with
  | error e => rfl
  | ok a => exact h a rfl

theorem mapError_eq_ok_iff {ε' : Type} {x : Except ε α} {f : ε → ε'} {a : α} :
    x.mapError f = .ok a ↔ x = .ok a := by
  cases x with
  | error e => simp [Except.mapError]
  | ok b => simp [Except.mapError]

theorem mapM_eq_ok_iff {f : α → Except ε β} {xs : List α} {ys : List β} :
    xs.mapM f = .ok ys ↔ List.Forall₂ (fun x y => f x = .ok y) xs ys := by
  induction xs generalizing ys with
  | nil => simp [eq_comm]
  | cons x xs ih =>
    rw [List.mapM_cons, bind_eq_ok_iff]
    constructor
    · rintro ⟨y, hy, hys⟩
      obtain ⟨rest, hrest, hpure⟩ := bind_eq_ok_iff.mp hys
      obtain rfl : y :: rest = ys := Except.ok.inj hpure
      exact .cons hy (ih.mp hrest)
    · intro h
      cases h with
      | cons hy hrest => exact ⟨_, hy, bind_eq_ok_iff.mpr ⟨_, ih.mpr hrest, rfl⟩⟩

theorem mapM_congr {f g : α → Except ε β} {xs : List α} (h : ∀ x ∈ xs, f x = g x) :
    xs.mapM f = xs.mapM g := by
  induction xs with
  | nil => rfl
  | cons x xs ih =>
    rw [List.forall_mem_cons] at h
    rw [List.mapM_cons, List.mapM_cons, h.1, ih h.2]

theorem mapM_eq_some_iff {f : α → Option β} {xs : List α} {ys : List β} :
    xs.mapM f = some ys ↔ List.Forall₂ (fun x y => f x = some y) xs ys := by
  induction xs generalizing ys with
  | nil => simp [eq_comm]
  | cons x xs ih =>
    rw [List.mapM_cons, Option.bind_eq_bind, Option.bind_eq_some_iff]
    constructor
    · rintro ⟨y, hy, hys⟩
      obtain ⟨rest, hrest, hpure⟩ := Option.bind_eq_some_iff.mp hys
      obtain rfl : y :: rest = ys := Option.some.inj hpure
      exact .cons hy (ih.mp hrest)
    · intro h
      cases h with
      | cons hy hrest => exact ⟨_, hy, Option.bind_eq_some_iff.mpr ⟨_, ih.mpr hrest, rfl⟩⟩

theorem forM_eq_ok_iff {f : α → Except ε Unit} {xs : List α} :
    xs.forM f = .ok () ↔ ∀ x ∈ xs, f x = .ok () := by
  induction xs with
  | nil => exact ⟨fun _ => by simp, fun _ => rfl⟩
  | cons x xs ih =>
    rw [List.forall_mem_cons, ← ih]
    constructor
    · intro h
      obtain ⟨⟨⟩, hx, hxs⟩ := bind_eq_ok_iff.mp h
      exact ⟨hx, hxs⟩
    · rintro ⟨hx, hxs⟩
      exact bind_eq_ok_iff.mpr ⟨(), hx, hxs⟩

theorem exists_right_of_mem {R : α → β → Prop} {xs : List α} {ys : List β}
    (h : List.Forall₂ R xs ys) {x : α} (hx : x ∈ xs) : ∃ y ∈ ys, R x y := by
  induction h with
  | nil => cases hx
  | cons hab _ ih =>
    rcases List.mem_cons.mp hx with rfl | hx
    · exact ⟨_, List.mem_cons_self, hab⟩
    · obtain ⟨y, hy, hR⟩ := ih hx
      exact ⟨y, List.mem_cons_of_mem _ hy, hR⟩

theorem exists_left_of_mem {R : α → β → Prop} {xs : List α} {ys : List β}
    (h : List.Forall₂ R xs ys) {y : β} (hy : y ∈ ys) : ∃ x ∈ xs, R x y :=
  exists_right_of_mem h.flip hy

theorem map_eq_of_forall₂ {γ : Type} {R : α → β → Prop} {xs : List α} {ys : List β} {f : α → γ}
    {g : β → γ} (h : List.Forall₂ R xs ys) (hfg : ∀ x y, R x y → g y = f x) :
    ys.map g = xs.map f := by
  induction h with
  | nil => rfl
  | cons hxy _ ih => rw [List.map_cons, List.map_cons, hfg _ _ hxy, ih]

theorem forall₂_trans {γ : Type} {R : α → β → Prop} {S : β → γ → Prop} {T : α → γ → Prop}
    {xs : List α} {ys : List β} {zs : List γ} (h : ∀ x y z, R x y → S y z → T x z)
    (hxy : List.Forall₂ R xs ys) (hyz : List.Forall₂ S ys zs) : List.Forall₂ T xs zs := by
  induction hxy generalizing zs with
  | nil =>
    cases hyz
    exact .nil
  | cons hR _ ih =>
    cases hyz with
    | cons hS hrest => exact .cons (h _ _ _ hR hS) (ih hrest)

theorem exists_forall₂ {R : α → β → Prop} (l : List α) (h : ∀ x ∈ l, ∃ y, R x y) :
    ∃ ys, List.Forall₂ R l ys := by
  induction l with
  | nil => exact ⟨[], .nil⟩
  | cons x l ih =>
    rw [List.forall_mem_cons] at h
    obtain ⟨y, hy⟩ := h.1
    obtain ⟨ys, hys⟩ := ih h.2
    exact ⟨y :: ys, .cons hy hys⟩

theorem lookup_of_mem {l : List α} {name : α → String} {g : α → β} (hn : (l.map name).Nodup) {a : α}
    (ha : a ∈ l) : (l.map fun b => (name b, g b)).lookup (name a) = some (g a) := by
  induction l with
  | nil => cases ha
  | cons b l ih =>
    rw [List.map_cons, List.nodup_cons] at hn
    rcases List.mem_cons.mp ha with rfl | ha
    · simp
    · have hne : name a ≠ name b := fun heq => hn.1 (heq ▸ List.mem_map_of_mem ha)
      rw [List.map_cons, List.lookup_cons, beq_eq_false_iff_ne.mpr hne]
      exact ih hn.2 ha

theorem mem_of_lookup {table : List (String × β)} {x : String} {b : β}
    (h : table.lookup x = some b) : (x, b) ∈ table := by
  obtain ⟨before, after, rfl, -⟩ := List.lookup_eq_some_iff.mp h
  simp

theorem lookup_eq_none_iff_notMem {table : List (String × β)} {x : String} :
    table.lookup x = none ↔ x ∉ table.map (·.1) := by
  rw [List.lookup_eq_none_iff, List.mem_map, not_exists]
  exact forall_congr' fun q => by rw [bne_iff_ne, not_and, ne_comm]

theorem foldlM_eq_ok_cons {step : σ → α → Except ε σ} {a : α} {l : List α} {s s' : σ} :
    (a :: l).foldlM step s = .ok s' ↔ ∃ t, step s a = .ok t ∧ l.foldlM step t = .ok s' := by
  rw [List.foldlM_cons, bind_eq_ok_iff]

theorem foldlM_ok {step : σ → α → Except ε σ} {P : σ → Prop} (l : List α)
    (hstep : ∀ a ∈ l, ∀ s, P s → ∃ t, step s a = .ok t ∧ P t) (s : σ) (hs : P s) :
    ∃ t, l.foldlM step s = .ok t ∧ P t := by
  induction l generalizing s with
  | nil => exact ⟨s, rfl, hs⟩
  | cons a l ih =>
    rw [List.forall_mem_cons] at hstep
    obtain ⟨t, ht, hPt⟩ := hstep.1 s hs
    obtain ⟨u, hu, hPu⟩ := ih hstep.2 t hPt
    exact ⟨u, foldlM_eq_ok_cons.mpr ⟨t, ht, hu⟩, hPu⟩

inductive Run (R : α → σ → σ → Prop) : List α → σ → σ → Prop
  | nil (s : σ) : Run R [] s s
  | cons {a : α} {l : List α} {s t u : σ} (ha : R a s t) (hl : Run R l t u) : Run R (a :: l) s u

namespace Run

theorem of_foldlM {step : σ → α → Except ε σ} {R : α → σ → σ → Prop} {P : σ → Prop} (l : List α)
    (hstep : ∀ a ∈ l, ∀ s t, P s → step s a = .ok t → R a s t ∧ P t) {s t : σ} (hs : P s)
    (h : l.foldlM step s = .ok t) : Run R l s t := by
  induction l generalizing s with
  | nil =>
    obtain rfl : s = t := Except.ok.inj h
    exact .nil s
  | cons a l ih =>
    rw [List.forall_mem_cons] at hstep
    obtain ⟨u, hu, hrest⟩ := foldlM_eq_ok_cons.mp h
    obtain ⟨hR, hPu⟩ := hstep.1 s u hs hu
    exact .cons hR (ih hstep.2 hPu hrest)

theorem append {R : α → σ → σ → Prop} {l l' : List α} {s t u : σ} (h : Run R l s t)
    (h' : Run R l' t u) : Run R (l ++ l') s u := by
  induction h with
  | nil s => exact h'
  | cons ha _ ih => exact .cons ha (ih h')

theorem imp {R S : α → σ → σ → Prop} {l : List α} {s t : σ} (hRS : ∀ a s t, R a s t → S a s t)
    (h : Run R l s t) : Run S l s t := by
  induction h with
  | nil s => exact .nil s
  | cons ha _ ih => exact .cons (hRS _ _ _ ha) ih

theorem exists_of_mem {R : α → σ → σ → Prop} {l : List α} {s t : σ} (h : Run R l s t) {a : α}
    (ha : a ∈ l) : ∃ s t, R a s t := by
  induction h with
  | nil s => cases ha
  | cons hb _ ih =>
    rcases List.mem_cons.mp ha with rfl | ha
    · exact ⟨_, _, hb⟩
    · exact ih ha

variable {γ : Type} {R : α → σ → σ → Prop} (get : σ → Nat → γ) (touches : α → Nat → Prop)
  {l : List α} {s t : σ}

theorem frame (h : Run R l s t)
    (hstep : ∀ a ∈ l, ∀ s t, R a s t → ∀ j, ¬ touches a j → get t j = get s j) {j : Nat}
    (hj : ∀ a ∈ l, ¬ touches a j) : get t j = get s j := by
  induction h with
  | nil s => rfl
  | cons ha hl ih =>
    rw [List.forall_mem_cons] at hstep hj
    rw [ih hstep.2 hj.2, hstep.1 _ _ ha j hj.1]

theorem done (Done : α → σ → Prop) (h : Run R l s t)
    (hstep : ∀ a ∈ l, ∀ s t, R a s t → ∀ j, ¬ touches a j → get t j = get s j)
    (hdone : ∀ a ∈ l, ∀ s t, R a s t → Done a t)
    (hstable : ∀ a ∈ l, ∀ s t, (∀ j, touches a j → get t j = get s j) → Done a s → Done a t)
    (hapart : l.Pairwise fun a b => ∀ j, touches a j → ¬ touches b j) : ∀ a ∈ l, Done a t := by
  induction h with
  | nil s => simp
  | cons ha hl ih =>
    rw [List.forall_mem_cons] at hstep hdone hstable ⊢
    rw [List.pairwise_cons] at hapart
    refine ⟨?_, ih hstep.2 hdone.2 hstable.2 hapart.2⟩
    apply hstable.1 _ _ _ (hdone.1 _ _ ha)
    intro j hj
    exact hl.frame get touches hstep.2 fun b hb => hapart.1 b hb j hj

end Run

end WordLayout
