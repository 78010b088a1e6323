import Mathlib
import WordLayout.Proofs.Coverage.Partition
import WordLayout.Proofs.Validation.Acceptance

namespace WordLayout

def Group.raw (g : Group) : Group := { g with pieces := g.pieces.filter Piece.isRaw }

namespace Coverage

open Word Validation

structure ModesAgree (fields : List Field) (size : UInt32) : Prop where
  length_eq : ∀ mode, (resolve fields size mode).length = size.toNat / 4
  raw_eq : (resolve fields size .read).map Group.raw = (resolve fields size .write).map Group.raw
  leaf : ∀ (mode : Mode) (i : Nat) (f : Field) (k : ScalarKind) (n : Nat),
    fields[i]? = some f → f.ty.leaf? = some (k, n) →
      ((((resolve fields size mode).map Group.raw).flatMap (·.pieces)).filter (·.field = i)).Perm
          ((List.range n).map (leafPiece i f k)) ∧
        ∀ lane < n, (leafPiece i f k lane).bytes = f.extent (leafPiece i f k lane).lane
  nested : ∀ (i : Nat) (f : Field) (t : Handle), fields[i]? = some f → f.ty = .inline t →
    ((resolve fields size .write).flatMap (·.pieces)).filter (·.field = i) = [nestedPiece i f] ∧
      ∃ g, (resolve fields size .write)[f.offset.toNat / 4]? = some g ∧ nestedPiece i f ∈ g.pieces
  alone : ∀ mode, ∀ g ∈ resolve fields size mode, ∀ p ∈ g.pieces, p.kind = .nested →
    g.pieces = [p]
  stores_apart : ∀ g ∈ resolve fields size .write, g.needsRaw = true →
    ∀ f ∈ fields, ∀ t, f.ty = .inline t → g.word.toNat ∉ f.words

section raw

theorem piecesOf_raw (i : Nat) (f : Field) :
    (piecesOf .read i f).filter Piece.isRaw = (piecesOf .write i f).filter Piece.isRaw := by
  by_cases hinline : ∃ t, f.ty = .inline t
  · obtain ⟨t, hty⟩ := hinline
    simp [piecesOf, hty, Piece.isRaw, List.filter_map, Function.comp_def]
  · rw [piecesOf_write i (not_exists.mp hinline)]

theorem pieces_raw (fields : List Field) :
    (pieces .read fields).filter Piece.isRaw = (pieces .write fields).filter Piece.isRaw := by
  simp only [pieces, List.filter_flatMap]
  apply List.flatMap_congr
  rintro ⟨f, i⟩ -
  exact piecesOf_raw i f

theorem resolve_raw {fields : List Field} {size : UInt32}
    (hlen : wordCount size (pieces .read fields) = wordCount size (pieces .write fields)) :
    (resolve fields size .read).map Group.raw = (resolve fields size .write).map Group.raw := by
  simp only [resolve_eq, hlen, List.map_map]
  apply List.map_congr_left
  intro w _
  simp only [Function.comp_apply, Group.raw, Group.mk.injEq, true_and]
  rw [List.filter_comm, pieces_raw, List.filter_comm]

end raw

section fields

variable {fields : List Field} {mode : Mode} {f : Field}

theorem filter_piecesOf (mode : Mode) (f : Field) (i j : Nat) :
    (piecesOf mode j f).filter (·.field = i) = if j = i then piecesOf mode j f else [] := by
  by_cases hij : j = i
  · rw [if_pos hij, List.filter_eq_self]
    intro p hp
    exact decide_eq_true ((field_of_mem_piecesOf hp).trans hij)
  · rw [if_neg hij, List.filter_eq_nil_iff]
    intro p hp hpi
    exact hij ((field_of_mem_piecesOf hp).symm.trans (of_decide_eq_true hpi))

theorem flatMap_ite_zipIdx {i n k : Nat} (hf : fields[n]? = some f) (hi : k + n = i) :
    ((fields.zipIdx k).flatMap fun x => if x.2 = i then piecesOf mode x.2 x.1 else []) =
      piecesOf mode i f := by
  induction fields generalizing n k with
  | nil => simp at hf
  | cons g fields ih =>
    rw [List.zipIdx_cons, List.flatMap_cons]
    cases n with
    | zero =>
      obtain rfl := Option.some.inj hf
      have hrest : ((fields.zipIdx (k + 1)).flatMap fun x =>
          if x.2 = i then piecesOf mode x.2 x.1 else []) = [] := by
        rw [List.flatMap_eq_nil_iff]
        rintro ⟨g', j⟩ hmem
        have hle := (List.mem_zipIdx hmem).1
        exact if_neg (by omega)
      obtain rfl : k = i := by omega
      rw [if_pos rfl, hrest, List.append_nil]
    | succ n =>
      rw [if_neg (by omega), List.nil_append]
      exact ih hf (by omega)

theorem filter_pieces {i : Nat} (hf : fields[i]? = some f) :
    (pieces mode fields).filter (·.field = i) = piecesOf mode i f := by
  rw [pieces, List.filter_flatMap]
  simp only [filter_piecesOf]
  exact flatMap_ite_zipIdx hf (Nat.zero_add i)

theorem filter_groups (size : UInt32) (mode : Mode) {i : Nat} (hf : fields[i]? = some f) :
    (((resolve fields size mode).flatMap (·.pieces)).filter (·.field = i)).Perm
      (piecesOf mode i f) := by
  rw [← filter_pieces hf]
  exact (groups_perm fields size mode).filter _

end fields

section sound

variable {m : Module} (hm : m.StructsSound) {h : Handle} {size : UInt32} {fields : List Field}
  (hs : StructSound m h size fields) (ha : size.toNat % 4 = 0) {mode : Mode} {i : Nat} {f : Field}

theorem exactEnd_eq_stop (hp : f.Placed m size) : f.exactEnd = f.stop := by
  rcases leaf_or_inline hp with ⟨k, n, hl⟩ | ⟨t, ht⟩
  · have hsize := hp.size_toNat hl
    cases hty : f.ty with
    | scalar _ => simp only [Field.exactEnd, hty, Field.stop]
    | vector _ _ | ref _ =>
      simp only [hty, Ty.leaf?, Option.some.injEq, Prod.mk.injEq] at hl
      obtain ⟨rfl, rfl⟩ := hl
      simp [Field.exactEnd, hty, Field.stop, hsize, ScalarKind.size]
    | inline t => simp [hty, Ty.leaf?] at hl
    | missing => simp [hty, Ty.leaf?] at hl
  · simp only [Field.exactEnd, ht, Field.stop]

theorem kind_of_inline {t : Handle} (ht : f.ty = .inline t) {p : Piece}
    (hp : p ∈ piecesOf mode i f) : p.kind = .nested ∧ p.lane = none := by
  cases mode with
  | read =>
    simp only [piecesOf, ht, List.mem_map] at hp
    obtain ⟨part, -, rfl⟩ := hp
    exact ⟨rfl, rfl⟩
  | write =>
    simp only [piecesOf, ht, List.mem_singleton] at hp
    subst hp
    exact ⟨rfl, rfl⟩

theorem kind_of_mem_piecesOf {i : Nat} {p : Piece} (hp : p ∈ piecesOf mode i f) :
    p.kind = f.ty.pieceKind ∧ f.ty ≠ .missing := by
  cases ht : f.ty with
  | scalar _ | ref _ =>
    simp only [piecesOf, ht, List.mem_map] at hp
    obtain ⟨part, -, rfl⟩ := hp
    exact ⟨rfl, by simp⟩
  | vector _ _ =>
    simp only [piecesOf, ht, List.mem_flatMap, List.mem_map] at hp
    obtain ⟨lane, -, part, -, rfl⟩ := hp
    exact ⟨rfl, by simp⟩
  | inline _ => exact ⟨(kind_of_inline ht hp).1, by simp⟩
  | missing => simp [piecesOf, ht] at hp

theorem eq_singleton_of_precedes {ps : List Piece} {p : Piece} (hp : p ∈ ps)
    (hps : ps.Pairwise Piece.Precedes)
    (hsame : ∀ q ∈ ps, q.field = p.field ∧ q.lane = none) : ps = [p] := by
  match ps with
  | [] => cases hp
  | [q] => rw [List.mem_singleton.mp hp]
  | q :: r :: ps =>
    obtain ⟨hqf, -⟩ := hsame q (by simp)
    obtain ⟨hrf, hrl⟩ := hsame r (by simp)
    have hqr : q.Precedes r := (List.pairwise_cons.mp hps).1 r (by simp)
    rcases hqr with hlt | ⟨-, a, b, -, hb, -⟩
    · omega
    · rw [hrl] at hb
      cases hb

theorem leafPiece_bytes (hp : f.Placed m size) {k : ScalarKind} {n lane : Nat}
    (hl : f.ty.leaf? = some (k, n)) (hlane : lane < n) :
    (leafPiece i f k lane).bytes = f.extent (leafPiece i f k lane).lane := by
  have hoff := hp.laneOffset_toNat hl hlane
  have hsize := hp.size_toNat hl
  cases hty : f.ty with
  | scalar _ | ref _ =>
    simp only [hty, Ty.leaf?, Option.some.injEq, Prod.mk.injEq] at hl
    obtain ⟨rfl, rfl⟩ := hl
    obtain rfl : lane = 0 := by omega
    simp [Piece.bytes, leafPiece, hty, Field.extent, hsize, ScalarKind.size]
  | vector _ lanes =>
    simp only [hty, Ty.leaf?, Option.some.injEq, Prod.mk.injEq] at hl
    obtain ⟨rfl, rfl⟩ := hl
    simp only [Piece.bytes, leafPiece, hty, Field.extent, hlane, if_true, hoff, Nat.add_mul,
      Nat.one_mul, Nat.add_assoc]
  | inline t => simp [hty, Ty.leaf?] at hl
  | missing => simp [hty, Ty.leaf?] at hl

theorem nested_group (hf : fields[i]? = some f) {t : Handle}
    (ht : f.ty = .inline t) :
    ((resolve fields size .write).flatMap (·.pieces)).filter (·.field = i) = [nestedPiece i f] ∧
      ∃ g, (resolve fields size .write)[f.offset.toNat / 4]? = some g ∧
        nestedPiece i f ∈ g.pieces := by
  have hpieces : piecesOf .write i f = [nestedPiece i f] := by simp only [piecesOf, ht, nestedPiece]
  constructor
  · have hperm := filter_groups size .write hf
    rwa [hpieces, List.perm_singleton] at hperm
  · have hmem : nestedPiece i f ∈ pieces .write fields :=
      mem_pieces_iff.mpr ⟨i, f, hf, hpieces ▸ List.mem_singleton_self _⟩
    obtain ⟨g, hg, -, hp⟩ := exists_group_of_mem size hmem
    rw [Piece.word, toNat_div_four] at hg
    exact ⟨g, hg, hp⟩

include hs ha

theorem exactEnd_le (hf : f ∈ fields) : f.exactEnd ≤ 2 ^ 32 - 4 := by
  have hp := hs.placed f hf
  have hstop := hp.stop_le
  have hlt := size.toNat_lt
  rw [exactEnd_eq_stop hp]
  omega

theorem inline_of_nested {p : Piece} (hp : p ∈ pieces mode fields) (hk : p.kind = .nested) :
    ∃ f t, fields[p.field]? = some f ∧ f.ty = .inline t ∧ p ∈ piecesOf mode p.field f := by
  obtain ⟨i, f, hf, hpf⟩ := mem_pieces_iff.mp hp
  obtain rfl := field_of_mem_piecesOf hpf
  have hpl := hs.placed f (List.mem_of_getElem? hf)
  rcases leaf_or_inline hpl with ⟨k, n, hl⟩ | ⟨t, ht⟩
  · rw [piecesOf_leaf hpl ha hl, List.mem_map] at hpf
    obtain ⟨lane, -, hp⟩ := hpf
    have hraw := leafPiece_isRaw p.field f k lane
    rw [hp, Piece.isRaw, hk] at hraw
    cases hraw
  · exact ⟨f, t, hf, ht, hpf⟩

theorem leaf_groups (mode : Mode) (hf : fields[i]? = some f) {k : ScalarKind} {n : Nat}
    (hl : f.ty.leaf? = some (k, n)) :
    ((((resolve fields size mode).map Group.raw).flatMap (·.pieces)).filter (·.field = i)).Perm
      ((List.range n).map (leafPiece i f k)) := by
  have hpl := hs.placed f (List.mem_of_getElem? hf)
  have hpieces := piecesOf_leaf hpl ha hl mode i
  have hall : ((List.range n).map (leafPiece i f k)).filter Piece.isRaw =
      (List.range n).map (leafPiece i f k) := by
    rw [List.filter_eq_self]
    intro p hp
    obtain ⟨lane, -, rfl⟩ := List.mem_map.mp hp
    exact leafPiece_isRaw i f k lane
  have hraw : ((resolve fields size mode).map Group.raw).flatMap (·.pieces) =
      ((resolve fields size mode).flatMap (·.pieces)).filter Piece.isRaw := by
    rw [List.flatMap_map, List.filter_flatMap]
    rfl
  rw [hraw, List.filter_comm, ← hall, ← hpieces]
  exact (filter_groups size mode hf).filter _

include hm

theorem word_lt_size {p : Piece} (hp : p ∈ pieces mode fields) :
    p.word.toNat < size.toNat / 4 := by
  obtain ⟨i, f, hf, hpf⟩ := mem_pieces_iff.mp hp
  have hmem := List.mem_of_getElem? hf
  have hstop := (hs.placed f hmem).stop_le
  have hstart := start_inside hm hs ha hmem hpf
  rw [Piece.word, toNat_div_four]
  omega

theorem wordCount_eq_size (mode : Mode) :
    wordCount size (pieces mode fields) = size.toNat / 4 := by
  have hlt := size.toNat_lt
  have hround : ((size + 3) / 4).toNat = size.toNat / 4 := by
    rw [roundUp_toNat (by omega)]
    omega
  rw [← hround]
  apply wordCount_eq
  intro p hp
  rw [hround]
  exact word_lt_size hm hs ha hp

theorem nested_alone {g : Group} (hg : g ∈ resolve fields size mode) {p : Piece}
    (hp : p ∈ g.pieces) (hk : p.kind = .nested) : g.pieces = [p] := by
  obtain ⟨hmem, hword⟩ := of_mem_group hg hp
  obtain ⟨f, t, hf, ht, hpf⟩ := inline_of_nested hs ha hmem hk
  have hin := word_mem hm hs ha (List.mem_of_getElem? hf) ht hpf
  apply eq_singleton_of_precedes hp
  · exact group_ordered (fun f hf => exactEnd_le hs ha hf) hg
  · intro q hq
    obtain ⟨hqmem, hqword⟩ := of_mem_group hg hq
    have hfield : q.field = p.field := by
      by_contra hne
      apply word_notMem hm hs ha hf ht hqmem hne
      rwa [← hqword, hword]
    have hqf := mem_piecesOf_of_field hqmem (hfield ▸ hf)
    exact ⟨hfield, (kind_of_inline ht hqf).2⟩

theorem store_notMem {g : Group} (hg : g ∈ resolve fields size mode) (hraw : g.needsRaw = true)
    (hf : f ∈ fields) {t : Handle} (ht : f.ty = .inline t) : g.word.toNat ∉ f.words := by
  obtain ⟨p, hp, hr⟩ := List.any_eq_true.mp hraw
  obtain ⟨hmem, hword⟩ := of_mem_group hg hp
  obtain ⟨i, hf⟩ := List.getElem?_of_mem hf
  rw [hword]
  apply word_notMem hm hs ha hf ht hmem
  rintro rfl
  rw [Piece.isRaw, (kind_of_inline ht (mem_piecesOf_of_field hmem hf)).1] at hr
  cases hr

theorem modesAgree : ModesAgree fields size where
  length_eq mode := (length_resolve fields size mode).trans (wordCount_eq_size hm hs ha mode)
  raw_eq := by
    apply resolve_raw
    rw [wordCount_eq_size hm hs ha .read, wordCount_eq_size hm hs ha .write]
  leaf mode i f k n hf hl := by
    have hpl := hs.placed f (List.mem_of_getElem? hf)
    exact ⟨leaf_groups hs ha mode hf hl, fun lane hlane => leafPiece_bytes hpl hl hlane⟩
  nested _ _ _ hf ht := nested_group hf ht
  alone _ _ hg _ hp hk := nested_alone hm hs ha hg hp hk
  stores_apart _ hg hraw _ hf _ ht := store_notMem hm hs ha hg hraw hf ht

end sound

/-- In an accepted module, reading and writing a struct take the same scalars from the same words,
and no word is shared with a nested struct. -/
theorem accepted_modes_agree {m : Module} (hv : m.validate = []) (hx : m.ExactFields)
    {d : TypeDef} (hd : d ∈ m.defs) {fields : List Field} (hb : d.body = .struct fields) :
    ModesAgree fields d.size := by
  have hm := structsSound_of_validate hv hx
  have ha := Nat.mod_eq_zero_of_dvd (size_aligned (defErrors_eq_nil hv hd))
  obtain ⟨i, hi⟩ := List.getElem?_of_mem hd
  exact modesAgree hm (structSound_of_validate hv hx hi hb) ha

theorem accepted_modes_agree_chain :
    chainModule.validate = [] ∧ chainModule.ExactFields ∧
      ModesAgree [⟨"second", 8, .inline 0, 8⟩, ⟨"span", 16, .vector .i16 2, 4⟩,
        ⟨"first", 0, .inline 0, 8⟩] 20 := by
  have hv : chainModule.validate = [] := by cbv
  have hx : chainModule.ExactFields := by decide
  have hd : { name := "Pair", size := 20
              body := .struct [⟨"second", 8, .inline 0, 8⟩, ⟨"span", 16, .vector .i16 2, 4⟩,
                ⟨"first", 0, .inline 0, 8⟩] } ∈ chainModule.defs := by decide
  exact ⟨hv, hx, accepted_modes_agree hv hx hd rfl⟩

end Coverage

end WordLayout
