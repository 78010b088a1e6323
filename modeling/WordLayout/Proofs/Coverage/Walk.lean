import Mathlib
import WordLayout.Proofs.Coverage
import WordLayout.Proofs.Validation.Bounds

/-!
The walk that cuts a range of bytes at word boundaries, round by round. It goes on as long as it is
before the end of the range, and each round takes it to the next boundary or to the end. In the last
word of the address space the next boundary is 0, so that a range that ends inside this word is
walked over and over again. The struct of an accepted module can have such a range, but only as a
lane of a vector whose own end wraps around.
-/

namespace WordLayout.Coverage

open Word Validation

inductive Round (stop : UInt32) : UInt32 → UInt32 → Prop
  | next {off : UInt32} (hoff : off < stop) : Round stop off (cut off stop)

def Reached (start stop : UInt32) : UInt32 → Prop := Relation.ReflTransGen (Round stop) start

def Ends (start stop : UInt32) : Prop := ∃ last, Reached start stop last ∧ ¬ last < stop

def Advances (start stop : UInt32) : Prop :=
  ∀ off next, Reached start stop off → Round stop off next →
    off.toNat < next.toNat ∧ next.toNat ≤ stop.toNat

def InWord (offset size : UInt32) : Prop :=
  1 ≤ size.toNat ∧ size.toNat ≤ 4 ∧ offset.toNat % 4 + size.toNat ≤ 4

def ranges (mode : Mode) (f : Field) : List (UInt32 × UInt32) :=
  match f.ty with
  | .scalar _ => [(f.offset, f.size)]
  | .vector k lanes =>
    (List.range lanes.toNat).map fun lane => (f.offset + UInt32.ofNat lane * k.size, k.size)
  | .ref _ => [(f.offset, 4)]
  | .inline _ =>
    match mode with
    | .read => [(f.offset, f.size)]
    | .write => []
  | .missing => []

def InLastWord (offset size : UInt32) : Prop :=
  2 ^ 32 - 4 < offset.toNat + size.toNat ∧ offset.toNat + size.toNat < 2 ^ 32

instance (offset size : UInt32) : Decidable (InLastWord offset size) :=
  inferInstanceAs (Decidable (_ ∧ _))

section rounds

variable {start stop off next : UInt32}

theorem cut_toNat (hoff : off.toNat < 2 ^ 32 - 4) :
    (cut off stop).toNat = min stop.toNat ((off.toNat / 4 + 1) * 4) := by
  have hnext : ((off / 4 + 1) * 4).toNat = (off.toNat / 4 + 1) * 4 := by
    simp only [UInt32.toNat_mul, UInt32.toNat_add, UInt32.toNat_div, UInt32.reduceToNat]
    omega
  unfold cut
  split
  · rename_i h
    rw [UInt32.lt_iff_toNat_lt, hnext] at h
    omega
  · rename_i h
    rw [UInt32.lt_iff_toNat_lt, hnext] at h
    omega

theorem cut_lastWord (hoff : 2 ^ 32 - 4 ≤ off.toNat) : cut off stop = 0 := by
  have hlt := off.toNat_lt
  have hnext : (off / 4 + 1) * 4 = 0 := by
    rw [← UInt32.toNat_inj]
    simp only [UInt32.toNat_mul, UInt32.toNat_add, UInt32.toNat_div, UInt32.reduceToNat]
    omega
  rw [cut, hnext, if_neg UInt32.not_lt_zero]

theorem Round.bounds (hstop : stop.toNat ≤ 2 ^ 32 - 4) (h : Round stop off next) :
    off.toNat < next.toNat ∧ next.toNat ≤ stop.toNat ∧ next.toNat ≤ (off.toNat / 4 + 1) * 4 := by
  cases h with
  | next hoff =>
    rw [UInt32.lt_iff_toNat_lt] at hoff
    rw [cut_toNat (by omega)]
    omega

theorem not_round_of_le (h : stop.toNat ≤ start.toNat) : ¬ Round stop start next := by
  rintro ⟨hoff⟩
  rw [UInt32.lt_iff_toNat_lt] at hoff
  omega

theorem eq_of_reached_of_le (h : stop.toNat ≤ start.toNat) (hoff : Reached start stop off) :
    off = start := by
  rcases Relation.ReflTransGen.cases_head hoff with heq | ⟨next, hround, -⟩
  · exact heq.symm
  · exact absurd hround (not_round_of_le h)

theorem advances_of_le (hstop : stop.toNat ≤ 2 ^ 32 - 4) : Advances start stop := by
  intro off next _ hround
  obtain ⟨hlt, hle, -⟩ := hround.bounds hstop
  exact ⟨hlt, hle⟩

theorem ends_of_le (hstop : stop.toNat ≤ 2 ^ 32 - 4) (start : UInt32) : Ends start stop := by
  -- by induction on the bytes that are left
  induction hn : stop.toNat - start.toNat using Nat.strong_induction_on generalizing start with
  | _ n ih =>
    by_cases hlt : start < stop
    · have hround : Round stop start (cut start stop) := .next hlt
      have hbounds := hround.bounds hstop
      obtain ⟨last, hlast, hdone⟩ := ih (stop.toNat - (cut start stop).toNat) (by omega) _ rfl
      exact ⟨last, hlast.head hround, hdone⟩
    · exact ⟨start, .refl, hlt⟩

theorem not_ends_of_lastWord (hstop : 2 ^ 32 - 4 < stop.toNat) (hlt : start < stop) :
    ¬ Ends start stop := by
  have hround : ∀ off next, Round stop off next → next < stop := by
    rintro off _ ⟨hoff⟩
    rw [UInt32.lt_iff_toNat_lt] at hoff ⊢
    rcases Nat.lt_or_ge off.toNat (2 ^ 32 - 4) with hbefore | hlast
    · rw [cut_toNat hbefore]
      omega
    · rw [cut_lastWord hlast]
      exact (Nat.zero_lt_of_lt hstop)
  rintro ⟨last, hreached, hdone⟩
  apply hdone
  induction hreached with
  | refl => exact hlt
  | tail _ hlast _ => exact hround _ _ hlast

end rounds

section ranges

variable {offset size : UInt32}

theorem stop_le_start_of_wrapped (h : 2 ^ 32 ≤ offset.toNat + size.toNat) :
    (offset + size).toNat ≤ offset.toNat := by
  have hsize := size.toNat_lt
  rw [UInt32.toNat_add]
  omega

theorem stop_toNat_le (h : ¬ InLastWord offset size) (hlt : offset.toNat + size.toNat < 2 ^ 32) :
    (offset + size).toNat ≤ 2 ^ 32 - 4 := by
  rw [toNat_add_of_lt hlt]
  exact Nat.le_of_not_lt fun hlast => h ⟨hlast, hlt⟩

theorem ends_of_not_inLastWord (h : ¬ InLastWord offset size) : Ends offset (offset + size) := by
  rcases Nat.lt_or_ge (offset.toNat + size.toNat) (2 ^ 32) with hlt | hge
  · exact ends_of_le (stop_toNat_le h hlt) offset
  · have hle := stop_le_start_of_wrapped hge
    refine ⟨offset, .refl, ?_⟩
    rw [UInt32.lt_iff_toNat_lt]
    omega

theorem not_ends_of_inLastWord (hpos : 0 < size.toNat) (h : InLastWord offset size) :
    ¬ Ends offset (offset + size) := by
  have hadd := toNat_add_of_lt h.2
  apply not_ends_of_lastWord
  · rw [hadd]
    exact h.1
  · rw [UInt32.lt_iff_toNat_lt]
    omega

theorem advances_of_not_inLastWord (h : ¬ InLastWord offset size) :
    Advances offset (offset + size) := by
  rcases Nat.lt_or_ge (offset.toNat + size.toNat) (2 ^ 32) with hlt | hge
  · exact advances_of_le (stop_toNat_le h hlt)
  · have hle := stop_le_start_of_wrapped hge
    intro off next hoff hround
    rw [eq_of_reached_of_le hle hoff] at hround
    exact absurd hround (not_round_of_le hle)

theorem mem_spanTo_iff {start stop o n : UInt32} (hstop : stop.toNat ≤ 2 ^ 32 - 4) :
    (o, n) ∈ spanTo start stop ↔
      ∃ next, Reached start stop o ∧ Round stop o next ∧ n = next - o := by
  fun_induction spanTo start stop with
  | case1 start hlt hcut ih =>
    rw [List.mem_cons, Prod.mk.injEq, ih]
    constructor
    · rintro (⟨rfl, rfl⟩ | ⟨next, hreached, hround, hn⟩)
      · exact ⟨_, .refl, .next hlt, rfl⟩
      · exact ⟨next, hreached.head (.next hlt), hround, hn⟩
    · rintro ⟨next, hreached, hround, rfl⟩
      rcases Relation.ReflTransGen.cases_head hreached with rfl | ⟨_, ⟨_⟩, hrest⟩
      · cases hround
        exact .inl ⟨rfl, rfl⟩
      · exact .inr ⟨next, hrest, hround, rfl⟩
  | case2 start hlt hcut =>
    have hbounds := (Round.next hlt).bounds hstop
    exact absurd (UInt32.lt_iff_toNat_lt.mpr hbounds.1) hcut
  | case3 start hlt =>
    rw [UInt32.lt_iff_toNat_lt, Nat.not_lt] at hlt
    refine iff_of_false List.not_mem_nil ?_
    rintro ⟨next, hreached, hround, -⟩
    rw [eq_of_reached_of_le hlt hreached] at hround
    exact not_round_of_le hlt hround

theorem Round.inWord {off next stop : UInt32} (hstop : stop.toNat ≤ 2 ^ 32 - 4)
    (h : Round stop off next) : InWord off (next - off) := by
  obtain ⟨hlt, -, hle⟩ := h.bounds hstop
  have hsub : (next - off).toNat = next.toNat - off.toNat :=
    UInt32.toNat_sub_of_le _ _ (UInt32.le_iff_toNat_le.mpr hlt.le)
  refine ⟨?_, ?_, ?_⟩ <;> omega

theorem inWord_of_mem_span {o n : UInt32} (h : ¬ InLastWord offset size)
    (hp : (o, n) ∈ span offset size) : InWord o n := by
  rcases Nat.lt_or_ge (offset.toNat + size.toNat) (2 ^ 32) with hlt | hge
  · have hstop := stop_toNat_le h hlt
    obtain ⟨next, -, hround, rfl⟩ := (mem_spanTo_iff hstop).mp hp
    exact hround.inWord hstop
  · have hle := stop_le_start_of_wrapped hge
    rw [span, spanTo, if_neg (by rw [UInt32.lt_iff_toNat_lt]; omega)] at hp
    cases hp

end ranges

theorem parts_piecesOf {mode : Mode} {f : Field} (i : Nat)
    (h : ¬ (mode = .write ∧ ∃ t, f.ty = .inline t)) :
    (piecesOf mode i f).map (fun p => (p.offset, p.size)) =
      (ranges mode f).flatMap fun r => span r.1 r.2 := by
  unfold piecesOf ranges
  cases hty : f.ty with
  | scalar k => simp [Function.comp_def]
  | vector k lanes => simp [List.map_flatMap, List.flatMap_map, Function.comp_def]
  | ref t => simp [Function.comp_def]
  | inline t =>
    cases mode with
    | write => exact absurd ⟨rfl, t, hty⟩ h
    | read => simp [Function.comp_def]
  | missing => rfl

def LaneInLastWord (fields : List Field) : Prop :=
  ∃ f ∈ fields, ∃ k lanes, f.ty = .vector k lanes ∧ ∃ lane < lanes.toNat,
    InLastWord (f.offset + UInt32.ofNat lane * k.size) k.size

theorem not_ends_of_lane {fields : List Field} (mode : Mode) (h : LaneInLastWord fields) :
    ∃ f ∈ fields, ∃ r ∈ ranges mode f, ¬ Ends r.1 (r.1 + r.2) := by
  obtain ⟨f, hf, k, lanes, hty, lane, hlane, hlast⟩ := h
  refine ⟨f, hf, (f.offset + UInt32.ofNat lane * k.size, k.size), ?_, ?_⟩
  · simp only [ranges, hty]
    exact List.mem_map_of_mem (List.mem_range.mpr hlane)
  · exact not_ends_of_inLastWord k.size_pos hlast

section accepted

variable {m : Module} (hv : m.validate = []) {d : TypeDef} (hd : d ∈ m.defs) {fields : List Field}
  (hb : d.body = .struct fields)
include hv hd hb

theorem field_not_inLastWord {f : Field} (hf : f ∈ fields) : ¬ InLastWord f.offset f.size := by
  rintro ⟨hlast, hlt⟩
  have he := defErrors_eq_nil hv hd
  have hle := field_wrapped_le he hb hf
  have hmod := size_aligned he
  have hbound := d.size.toNat_lt
  rw [UInt32.le_iff_toNat_le, toNat_add_of_lt hlt] at hle
  omega

theorem range_not_inLastWord (hlanes : ¬ LaneInLastWord fields) {mode : Mode} {f : Field}
    (hf : f ∈ fields) {r : UInt32 × UInt32} (hr : r ∈ ranges mode f) : ¬ InLastWord r.1 r.2 := by
  have hwhole := field_not_inLastWord hv hd hb hf
  unfold ranges at hr
  cases hty : f.ty with
  | scalar k =>
    simp only [hty, List.mem_singleton] at hr
    rwa [hr]
  | vector k lanes =>
    simp only [hty, List.mem_map, List.mem_range] at hr
    obtain ⟨lane, hlane, rfl⟩ := hr
    intro hlast
    exact hlanes ⟨f, hf, k, lanes, hty, lane, hlane, hlast⟩
  | ref t =>
    have hsize := (field_known hv hd hb hf).2
    simp only [hty, List.mem_singleton] at hr
    rw [hty, Module.sizeOf] at hsize
    rwa [hr, ← hsize]
  | inline t =>
    cases mode with
    | write => simp [hty] at hr
    | read =>
      simp only [hty, List.mem_singleton] at hr
      rwa [hr]
  | missing => simp [hty] at hr

theorem not_laneInLastWord (hx : m.ExactEnds) : ¬ LaneInLastWord fields := by
  rintro ⟨f, hf, k, lanes, hty, lane, hlane, hlast, -⟩
  obtain ⟨i, hi⟩ := List.getElem?_of_mem hd
  have hsound := sound_of_validate hv hx hi
  rw [hb] at hsound
  have hp := hsound.placed f hf
  have hleaf : f.ty.leaf? = some (k, lanes.toNat) := by rw [hty]; rfl
  have hoff := hp.laneOffset_toNat hleaf hlane
  have hstop := hp.lane_stop_le hleaf hlane
  have hle := hp.stop_le
  have hmod := size_aligned (defErrors_eq_nil hv hd)
  have hbound := d.size.toNat_lt
  omega

/-- The walks over the fields of an accepted struct all end if and only if no lane of a vector ends
inside the last word, as is the case where no member's end wraps around. Then every round advances
without passing the end, and every piece it gives is one to four bytes of one word. -/
theorem walks_end_iff (mode : Mode) :
    ((∀ f ∈ fields, ∀ r ∈ ranges mode f, Ends r.1 (r.1 + r.2)) ↔ ¬ LaneInLastWord fields) ∧
    (m.ExactEnds → ¬ LaneInLastWord fields) ∧
    (¬ LaneInLastWord fields →
      (∀ f ∈ fields, ∀ r ∈ ranges mode f, Advances r.1 (r.1 + r.2)) ∧
      ∀ g ∈ resolve fields d.size mode, ∀ p ∈ g.pieces,
        (mode = .write ∧ p.kind = .nested) ∨ InWord p.offset p.size) := by
  refine ⟨⟨?_, ?_⟩, fun hx => not_laneInLastWord hv hd hb hx, fun hlanes => ⟨?_, ?_⟩⟩
  · intro hends hlane
    obtain ⟨f, hf, r, hr, hnot⟩ := not_ends_of_lane mode hlane
    exact hnot (hends f hf r hr)
  · intro hlanes f hf r hr
    exact ends_of_not_inLastWord (range_not_inLastWord hv hd hb hlanes hf hr)
  · intro f hf r hr
    exact advances_of_not_inLastWord (range_not_inLastWord hv hd hb hlanes hf hr)
  · intro g hg p hp
    obtain ⟨i, f, hf, hpf⟩ := mem_pieces_iff.mp (of_mem_group hg hp).1
    by_cases hnested : mode = .write ∧ ∃ t, f.ty = .inline t
    · obtain ⟨rfl, t, hty⟩ := hnested
      simp only [piecesOf, hty, List.mem_singleton] at hpf
      exact .inl ⟨rfl, by rw [hpf]⟩
    · have hpart := List.mem_map_of_mem (f := fun p : Piece => (p.offset, p.size)) hpf
      rw [parts_piecesOf i hnested, List.mem_flatMap] at hpart
      obtain ⟨r, hr, hspan⟩ := hpart
      have hlast := range_not_inLastWord hv hd hb hlanes (List.mem_of_getElem? hf) hr
      exact .inr (inWord_of_mem_span hlast hspan)

end accepted

def laneModule : Module :=
  { name := "m", writable := false
    defs := [{ name := "S", size := 4, body := .struct [⟨"v", 4294967293, .vector .u8 4, 4⟩] }] }

theorem laneModule_accepted : laneModule.validate = [] := by
  decide +kernel

/-- Acceptance alone does not make the walks end: the first lane takes its walk back to the start
of the address space, and so on for ever. -/
theorem accepted_walk_endless :
    (¬ ∀ m : Module, m.validate = [] → ∀ d ∈ m.defs, ∀ fields, d.body = .struct fields →
      ∀ mode, ∀ f ∈ fields, ∀ r ∈ ranges mode f, Ends r.1 (r.1 + r.2)) ∧
    (¬ ∀ m : Module, m.validate = [] → ∀ d ∈ m.defs, ∀ fields, d.body = .struct fields →
      ∀ mode, ∀ f ∈ fields, ∀ r ∈ ranges mode f, Advances r.1 (r.1 + r.2)) := by
  have hd : { name := "S", size := 4, body := .struct [⟨"v", 4294967293, .vector .u8 4, 4⟩] } ∈
      laneModule.defs := by decide
  have hr : (4294967293, 1) ∈ ranges .read ⟨"v", 4294967293, .vector .u8 4, 4⟩ := by decide
  constructor
  · intro h
    have hends := h laneModule laneModule_accepted _ hd _ rfl .read _ (List.mem_singleton_self _)
      _ hr
    exact not_ends_of_inLastWord (by decide) (by decide) hends
  · intro h
    have hadv := h laneModule laneModule_accepted _ hd _ rfl .read _ (List.mem_singleton_self _)
      _ hr
    have hround : Round 4294967294 4294967293 0 := .next (by decide)
    exact absurd (hadv _ _ .refl hround).1 (by decide)

theorem walks_end_wrapped :
    wrappedModule.validate = [] ∧
      ∀ r ∈ ranges .read ⟨"a", 4294967292, .scalar .u32, 4⟩, Ends r.1 (r.1 + r.2) := by
  have hd : { name := "S", size := 4, body := .struct [⟨"a", 4294967292, .scalar .u32, 4⟩] } ∈
      wrappedModule.defs := by decide
  have hends := (walks_end_iff wrappedModule_accepted hd rfl .read).1.mpr (by
    rintro ⟨f, hf, k, lanes, hty, -⟩
    obtain rfl := List.mem_singleton.mp hf
    cases hty)
  exact ⟨wrappedModule_accepted, hends _ (List.mem_singleton_self _)⟩

end WordLayout.Coverage
