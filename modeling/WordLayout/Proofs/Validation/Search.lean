import Mathlib
import WordLayout.Validation

namespace WordLayout.Validation

variable {g : List (List Handle)} {goal : Handle}

def Edge (g : List (List Handle)) (h d : Handle) : Prop := d ∈ edges g h

/-- A search for `goal` through the definitions of a list, one after the other and each with all
that it leads to. It takes the definitions visited before to those visited at its end, and gives the
path that it has found. -/
inductive Searches (g : List (List Handle)) (goal : Handle) :
    List Handle → List Handle → List Handle → Option (List Handle) → Prop
  | nil (visited : List Handle) : Searches g goal visited [] visited none
  | found (visited rest : List Handle) :
      Searches g goal visited (goal :: rest) visited (some [goal])
  | skip {h : Handle} {visited visited' rest : List Handle} {r : Option (List Handle)}
      (hne : h ≠ goal) (hseen : h ∈ visited) (hrest : Searches g goal visited rest visited' r) :
      Searches g goal visited (h :: rest) visited' r
  | lead {h : Handle} {visited visited' rest path : List Handle} (hne : h ≠ goal)
      (hnew : h ∉ visited) (hin : Searches g goal (h :: visited) (edges g h) visited' (some path)) :
      Searches g goal visited (h :: rest) visited' (some (h :: path))
  | vain {h : Handle} {visited visited' visited'' rest : List Handle} {r : Option (List Handle)}
      (hne : h ≠ goal) (hnew : h ∉ visited)
      (hin : Searches g goal (h :: visited) (edges g h) visited' none)
      (hrest : Searches g goal visited' rest visited'' r) :
      Searches g goal visited (h :: rest) visited'' r

namespace Searches

variable {visited visited' visited'' hs path : List Handle} {h : Handle} {r : Option (List Handle)}

theorem subset (hs' : Searches g goal visited hs visited' r) : visited ⊆ visited' := by
  induction hs' with
  | nil _ => exact List.Subset.refl _
  | found _ _ => exact List.Subset.refl _
  | skip _ _ _ ih => exact ih
  | lead _ _ _ ih => exact List.subset_of_cons_subset ih
  | vain _ _ _ _ ih ih' => exact List.Subset.trans (List.subset_of_cons_subset ih) ih'

theorem cons_some (hs' : Searches g goal visited [h] visited' (some path)) (rest : List Handle) :
    Searches g goal visited (h :: rest) visited' (some path) := by
  cases hs' with
  | found => exact .found _ _
  | skip _ _ hrest => cases hrest
  | lead hne hnew hin => exact .lead hne hnew hin
  | vain _ _ _ hrest => cases hrest

theorem cons_none (hs' : Searches g goal visited [h] visited' none)
    (hrest : Searches g goal visited' hs visited'' r) :
    Searches g goal visited (h :: hs) visited'' r := by
  cases hs' with
  | skip hne hseen hnil =>
    cases hnil
    exact .skip hne hseen hrest
  | vain hne hnew hin hnil =>
    cases hnil
    exact .vain hne hnew hin hrest

theorem closed (hs' : Searches g goal visited hs visited' none) :
    hs ⊆ visited' ∧
      ∀ x ∈ visited', x ∈ visited ∨ (x ≠ goal ∧ ∀ y, Edge g x y → y ∈ visited') := by
  generalize hr : (none : Option (List Handle)) = r at hs'
  induction hs' with
  | nil visited => exact ⟨List.nil_subset _, fun x hx => .inl hx⟩
  | found _ _ => cases hr
  | skip hne hseen hrest ih =>
    obtain ⟨hsub, hall⟩ := ih hr
    exact ⟨List.cons_subset.mpr ⟨hrest.subset hseen, hsub⟩, hall⟩
  | lead _ _ _ _ => cases hr
  | @vain h visited visited' visited'' rest r hne hnew hin hrest ih ih' =>
    obtain ⟨hedges, hbefore⟩ := ih rfl
    obtain ⟨hsub, hafter⟩ := ih' hr
    have hmono := hrest.subset
    refine ⟨List.cons_subset.mpr ⟨hmono (hin.subset List.mem_cons_self), hsub⟩, fun x hx => ?_⟩
    rcases hafter x hx with hx | hclosed
    · rcases hbefore x hx with hx | ⟨hxgoal, hxedges⟩
      · rcases List.mem_cons.mp hx with rfl | hx
        · exact .inr ⟨hne, fun y hy => hmono (hedges hy)⟩
        · exact .inl hx
      · exact .inr ⟨hxgoal, fun y hy => hmono (hxedges y hy)⟩
    · exact .inr hclosed

theorem sound (hs' : Searches g goal visited hs visited' (some path)) :
    (∃ x ∈ hs, path.head? = some x) ∧ path.getLast? = some goal ∧ path.IsChain (Edge g) ∧
      path.Nodup ∧ ∀ x ∈ path, x ∈ visited → x = goal := by
  generalize hr : some path = r at hs'
  induction hs' generalizing path with
  | nil _ => cases hr
  | found visited rest =>
    obtain rfl := Option.some.inj hr
    simp
  | skip _ _ _ ih =>
    obtain ⟨⟨x, hx, hhead⟩, hrest⟩ := ih hr
    exact ⟨⟨x, List.mem_cons_of_mem _ hx, hhead⟩, hrest⟩
  | @lead h visited visited' rest tail hne hnew hin ih =>
    obtain rfl := Option.some.inj hr
    obtain ⟨⟨x, hx, hhead⟩, hlast, hchain, hnodup, hgoal⟩ := ih rfl
    obtain ⟨tail, rfl⟩ := List.head?_eq_some_iff.mp hhead
    refine ⟨⟨h, List.mem_cons_self, rfl⟩, ?_, ?_, ?_, ?_⟩
    · rw [List.getLast?_cons_cons, hlast]
    · exact List.isChain_cons_cons.mpr ⟨hx, hchain⟩
    · refine List.nodup_cons.mpr ⟨fun hmem => ?_, hnodup⟩
      exact hne (hgoal h hmem List.mem_cons_self)
    · intro y hy hseen
      rcases List.mem_cons.mp hy with rfl | hy
      · exact absurd hseen hnew
      · exact hgoal y hy (List.mem_cons_of_mem _ hseen)
  | vain _ _ hin _ _ ih' =>
    obtain ⟨⟨x, hx, hhead⟩, hlast, hchain, hnodup, hgoal⟩ := ih' hr
    refine ⟨⟨x, List.mem_cons_of_mem _ hx, hhead⟩, hlast, hchain, hnodup, fun y hy hseen => ?_⟩
    exact hgoal y hy (hin.subset (List.mem_cons_of_mem _ hseen))

end Searches

section depth

def unvisited (g : List (List Handle)) (visited : List Handle) : Finset Nat :=
  (Finset.range g.length).filter fun i => UInt32.ofNat i ∉ visited

theorem card_unvisited_le {visited visited' : List Handle} (h : visited ⊆ visited') :
    (unvisited g visited').card ≤ (unvisited g visited).card := by
  apply Finset.card_le_card
  apply Finset.monotone_filter_right
  intro i _ hi hmem
  exact hi (h hmem)

theorem card_unvisited_cons {visited : List Handle} {h : Handle} (hlt : h.toNat < g.length)
    (hnew : h ∉ visited) : (unvisited g (h :: visited)).card < (unvisited g visited).card := by
  apply Finset.card_lt_card
  rw [Finset.ssubset_iff_of_subset]
  · refine ⟨h.toNat, ?_, ?_⟩
    · simp [unvisited, hlt, hnew]
    · simp [unvisited]
  · apply Finset.monotone_filter_right
    intro i _ hi hmem
    exact hi (List.mem_cons_of_mem _ hmem)

def searchNext (g : List (List Handle)) (goal : Handle) (fuel : Nat) (h : Handle)
    (state : List Handle × Option (List Handle)) (next : Handle) :
    List Handle × Option (List Handle) :=
  match state.2 with
  | some path => (state.1, some path)
  | none =>
    ((search g goal fuel state.1 next).1, (search g goal fuel state.1 next).2.map (h :: ·))

theorem search_enter {fuel : Nat} {visited : List Handle} {h : Handle} (hgoal : h ≠ goal)
    (hnew : h ∉ visited) :
    search g goal (fuel + 1) visited h =
      (edges g h).foldl (searchNext g goal fuel h) (h :: visited, none) := by
  rw [search, if_neg hgoal, if_neg (by simpa using hnew)]
  refine congrArg (fun step => List.foldl step (h :: visited, none) (edges g h)) ?_
  funext state next
  obtain ⟨visited, found⟩ := state
  cases found <;> rfl

theorem foldl_searchNext_some (fuel : Nat) (h : Handle) (visited path hs : List Handle) :
    hs.foldl (searchNext g goal fuel h) (visited, some path) = (visited, some path) := by
  induction hs with
  | nil => rfl
  | cons n hs ih => exact ih

theorem foldl_searchNext {fuel : Nat} (h : Handle)
    (hsearch : ∀ visited n, (unvisited g visited).card < fuel → ∃ visited' r,
      search g goal fuel visited n = (visited', r) ∧ Searches g goal visited [n] visited' r)
    (hs visited : List Handle) (hcard : (unvisited g visited).card < fuel) :
    ∃ visited' r,
      hs.foldl (searchNext g goal fuel h) (visited, none) = (visited', r.map (h :: ·)) ∧
        Searches g goal visited hs visited' r := by
  induction hs generalizing visited with
  | nil => exact ⟨visited, none, rfl, .nil visited⟩
  | cons n hs ih =>
    obtain ⟨visited', r, heq, hn⟩ := hsearch visited n hcard
    have hnext : searchNext g goal fuel h (visited, none) n = (visited', r.map (h :: ·)) := by
      simp only [searchNext, heq]
    rw [List.foldl_cons, hnext]
    cases r with
    | some path =>
      exact ⟨visited', some path, foldl_searchNext_some fuel h visited' _ hs, hn.cons_some hs⟩
    | none =>
      have hless := (card_unvisited_le hn.subset).trans_lt hcard
      obtain ⟨visited'', r, hrest, hall⟩ := ih visited' hless
      exact ⟨visited'', r, hrest, hn.cons_none hall⟩

theorem search_searches (goal : Handle) (fuel : Nat) (visited : List Handle) (h : Handle)
    (hcard : (unvisited g visited).card < fuel) :
    ∃ visited' r, search g goal fuel visited h = (visited', r) ∧
      Searches g goal visited [h] visited' r := by
  induction fuel generalizing visited h with
  | zero => omega
  | succ fuel ih =>
    by_cases hgoal : h = goal
    · subst hgoal
      exact ⟨visited, some [h], by simp [search], .found _ _⟩
    by_cases hseen : h ∈ visited
    · exact ⟨visited, none, by simp [search, hgoal, hseen], .skip hgoal hseen (.nil _)⟩
    have hedges : ∃ visited' r,
        (edges g h).foldl (searchNext g goal fuel h) (h :: visited, none) =
            (visited', r.map (h :: ·)) ∧
          Searches g goal (h :: visited) (edges g h) visited' r := by
      by_cases hlt : h.toNat < g.length
      · apply foldl_searchNext h ih
        have hless := card_unvisited_cons hlt hseen
        omega
      · -- a handle without a definition has no edges, and needs no depth
        have hnil : edges g h = [] := by simp [edges, List.getElem?_eq_none (Nat.not_lt.mp hlt)]
        rw [hnil]
        exact ⟨h :: visited, none, rfl, .nil _⟩
    obtain ⟨visited', r, heq, hin⟩ := hedges
    rw [search_enter hgoal hseen]
    refine ⟨visited', r.map (h :: ·), heq, ?_⟩
    cases r with
    | some path => exact .lead hgoal hseen hin
    | none => exact .vain hgoal hseen hin (.nil _)

theorem path?_searches (g : List (List Handle)) (h goal : Handle) :
    ∃ visited, Searches g goal [] [h] visited (path? g h goal) := by
  have hcard : (unvisited g []).card < g.length + 1 := by
    have hle := (Finset.filter_subset (fun i => UInt32.ofNat i ∉ ([] : List Handle))
      (Finset.range g.length))
    have hcard := Finset.card_le_card hle
    rw [Finset.card_range] at hcard
    exact Nat.lt_succ_of_le hcard
  obtain ⟨visited, r, heq, hs⟩ := search_searches goal (g.length + 1) [] h hcard
  rw [path?, heq]
  exact ⟨visited, hs⟩

end depth

section paths

variable {h : Handle} {path : List Handle}

theorem path?_sound (hp : path? g h goal = some path) :
    path.head? = some h ∧ path.getLast? = some goal ∧ path.IsChain (Edge g) ∧ path.Nodup := by
  obtain ⟨visited, hs⟩ := path?_searches g h goal
  rw [hp] at hs
  obtain ⟨⟨x, hx, hhead⟩, hlast, hchain, hnodup, -⟩ := hs.sound
  rw [List.mem_singleton.mp hx] at hhead
  exact ⟨hhead, hlast, hchain, hnodup⟩

theorem reaches_of_path? (hp : path? g h goal = some path) :
    Relation.ReflTransGen (Edge g) h goal := by
  obtain ⟨hhead, hlast, hchain, -⟩ := path?_sound hp
  obtain ⟨tail, rfl⟩ := List.head?_eq_some_iff.mp hhead
  apply List.relationReflTransGen_of_exists_isChain_cons tail hchain
  rw [List.getLast?_eq_some_getLast (List.cons_ne_nil h tail)] at hlast
  exact Option.some.inj hlast

theorem not_reaches_of_path? (hp : path? g h goal = none) :
    ¬ Relation.ReflTransGen (Edge g) h goal := by
  obtain ⟨visited, hs⟩ := path?_searches g h goal
  rw [hp] at hs
  obtain ⟨hsub, hclosed⟩ := hs.closed
  have hall : ∀ x ∈ visited, x ≠ goal ∧ ∀ y, Edge g x y → y ∈ visited := by
    intro x hx
    exact (hclosed x hx).resolve_left List.not_mem_nil
  have hmem : ∀ x, Relation.ReflTransGen (Edge g) h x → x ∈ visited := by
    intro x hx
    induction hx with
    | refl => exact hsub List.mem_cons_self
    | tail _ hedge ih => exact (hall _ ih).2 _ hedge
  intro hreach
  exact (hall goal (hmem goal hreach)).1 rfl

theorem path?_eq_none_iff :
    path? g h goal = none ↔ ¬ Relation.ReflTransGen (Edge g) h goal := by
  constructor
  · exact not_reaches_of_path?
  · intro hnot
    rw [Option.eq_none_iff_forall_ne_some]
    intro path hp
    exact hnot (reaches_of_path? hp)

end paths

end WordLayout.Validation
