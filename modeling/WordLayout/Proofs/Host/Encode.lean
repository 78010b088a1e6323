import Mathlib
import WordLayout.Proofs.Host.Stored

namespace WordLayout.Host

open Word Coverage

def encodePiece (m : Module) (path : List String) (offset : UInt32) (fields : List Field)
    (values : List Value) (before : UInt32 × Array UInt32) (p : Piece) :
    Except Fault (UInt32 × Array UInt32) :=
  match values[p.field]?, fields[p.field]? with
  | some value, some f =>
    match f.ty, value with
    | .inline target, .struct given inner =>
      if given = target then do
        pure (before.1, ← Buffer.encodeStruct m (path ++ [f.name]) before.2 (offset + f.offset)
          given inner)
      else Buffer.wrongType (path ++ [f.name]) (Buffer.nameOrHandle m target) value
    | .inline target, _ =>
      Buffer.wrongType (path ++ [f.name]) (Buffer.nameOrHandle m target) value
    | ty, _ => do
      pure (before.1 ||| (← Buffer.encodeLeaf (path ++ [f.name]) p ty value), before.2)
  | _, _ => .error .outsideWords

def encodeGroup (m : Module) (path : List String) (offset : UInt32) (fields : List Field)
    (values : List Value) (window : Array UInt32) (g : Group) : Except Fault (Array UInt32) := do
  let (word, window) ← g.pieces.foldlM (encodePiece m path offset fields values) (0, window)
  if g.needsRaw then Buffer.storeWord window (offset / 4 + g.word) word else pure window

section equations

variable {m : Module} {path : List String} {window window' : Array UInt32} {offset : UInt32}
  {h : Handle} {d : TypeDef} {fields : List Field} {values : List Value}
  (hd : m.def? h = some d) (hb : d.body = .struct fields)
include hd hb

theorem encodeStruct_eq :
    Buffer.encodeStruct m path window offset h values =
      if values.length = fields.length then
        (resolve fields d.size .write).foldlM
          (encodeGroup m (path ++ [d.name]) offset fields values) window
      else
        Buffer.refuse .write (path ++ [d.name]) (.fieldCount values.length fields.length) := by
  rw [Buffer.encodeStruct, structDef_eq_ok.mpr ⟨hd, hb⟩, ok_bind]
  simp only [ne_eq, ite_not]
  congr 2
  funext window g
  unfold encodeGroup
  congr 2
  funext before p
  obtain ⟨word, window⟩ := before
  simp only [encodePiece]
  split
  · rename_i value f hv hf
    simp only [hv, hf]
    cases hty : f.ty <;> cases value <;> rfl
  · rename_i hnone
    split
    · rename_i value f hv hf
      exact absurd hf (hnone value f hv)
    · rfl

theorem encodeStruct_eq_ok_iff :
    Buffer.encodeStruct m path window offset h values = .ok window' ↔
      values.length = fields.length ∧
        (resolve fields d.size .write).foldlM
          (encodeGroup m (path ++ [d.name]) offset fields values) window = .ok window' := by
  rw [encodeStruct_eq hd hb]
  by_cases hn : values.length = fields.length <;> simp [hn, Buffer.refuse]

end equations

section pieces

variable {m : Module} {path : List String} {offset size : UInt32} {fields : List Field}
  {values : List Value} {before after : UInt32 × Array UInt32} {n : Nat} {f : Field}

theorem encodeScalar_eq_ok_iff {at_ : UInt32} {k : ScalarKind} {v : Value} {x : UInt32} :
    Buffer.encodeScalar path at_ k v = .ok x ↔
      ∃ y, v.bits? k = some y ∧ x = (Insert.plan at_ k false).bits y := by
  unfold Buffer.encodeScalar
  cases v.bits? k with
  | none => simp [Buffer.wrongType, Buffer.refuse]
  | some y => simp [eq_comm]

theorem encodeLeaf_eq_ok_iff {k : ScalarKind} {c lane : Nat} {v : Value} {x : UInt32}
    (hp : f.Placed m size) (hl : f.ty.leaf? = some (k, c)) (hlane : lane < c) :
    Buffer.encodeLeaf path (leafPiece n f k lane) f.ty v = .ok x ↔
      ∃ y, lane? f.ty v lane = some y ∧
        x = (Insert.plan (leafPiece n f k lane).offset k false).bits y := by
  have halign := hp.laneOffset_aligned hl lane
  rw [← hp.laneOffset_toNat hl hlane] at halign
  cases ht : f.ty with
  | scalar k' =>
    obtain ⟨rfl, rfl⟩ : k' = k ∧ 1 = c := by simpa [ht, Ty.leaf?] using hl
    exact encodeScalar_eq_ok_iff
  | vector k' lanes =>
    obtain ⟨rfl, rfl⟩ : k' = k ∧ lanes.toNat = c := by simpa [ht, Ty.leaf?] using hl
    cases v with
    | vector vs =>
      by_cases hlen : vs.length = lanes.toNat
      · have hlane' : lane < vs.length := by omega
        have hpiece : (leafPiece n f k' lane).lane = some lane := by simp [leafPiece, ht]
        simp only [Buffer.encodeLeaf, hlen, if_true, hpiece, Option.bind_some,
          List.getElem?_eq_getElem hlane', lane?]
        exact encodeScalar_eq_ok_iff
      · simp [Buffer.encodeLeaf, lane?, hlen, Buffer.wrongType, Buffer.refuse]
    | _ => simp [Buffer.encodeLeaf, lane?, Buffer.wrongType, Buffer.refuse]
  | ref t =>
    obtain ⟨rfl, rfl⟩ : .u32 = k ∧ 1 = c := by simpa [ht, Ty.leaf?] using hl
    cases v with
    | ref r =>
      have hbits := Insert.bits_plan_whole rfl halign false
      simp [Buffer.encodeLeaf, lane?, leafPiece, hbits, eq_comm]
    | _ => simp [Buffer.encodeLeaf, lane?, Buffer.wrongType, Buffer.refuse]
  | inline t => simp [ht, Ty.leaf?] at hl
  | missing => simp [ht, Ty.leaf?] at hl

theorem encodePiece_leaf {k : ScalarKind} {c lane : Nat} {v : Value} (hf : fields[n]? = some f)
    (hl : f.ty.leaf? = some (k, c)) (hv : values[n]? = some v) :
    encodePiece m path offset fields values before (leafPiece n f k lane) =
      Buffer.encodeLeaf (path ++ [f.name]) (leafPiece n f k lane) f.ty v >>= fun x =>
        .ok (before.1 ||| x, before.2) := by
  have hn : (leafPiece n f k lane).field = n := rfl
  simp only [encodePiece, hn, hf, hv]
  cases ht : f.ty with
  | inline t => simp [ht, Ty.leaf?] at hl
  | _ => rfl

theorem encodePiece_leaf_iff {k : ScalarKind} {c lane : Nat} (hf : fields[n]? = some f)
    (hp : f.Placed m size) (hl : f.ty.leaf? = some (k, c)) (hlane : lane < c) :
    encodePiece m path offset fields values before (leafPiece n f k lane) = .ok after ↔
      ∃ v y, values[n]? = some v ∧ lane? f.ty v lane = some y ∧
        after = (before.1 ||| (Insert.plan (leafPiece n f k lane).offset k false).bits y,
          before.2) := by
  cases hv : values[n]? with
  | none =>
    have hn : (leafPiece n f k lane).field = n := rfl
    simp [encodePiece, hn, hv]
  | some v =>
    rw [encodePiece_leaf hf hl hv, bind_eq_ok_iff]
    constructor
    · rintro ⟨x, hx, hafter⟩
      obtain ⟨y, hy, rfl⟩ := (encodeLeaf_eq_ok_iff hp hl hlane).mp hx
      exact ⟨v, y, rfl, hy, (Except.ok.inj hafter).symm⟩
    · rintro ⟨v', y, hv', hy, rfl⟩
      obtain rfl := Option.some.inj hv'
      exact ⟨_, (encodeLeaf_eq_ok_iff hp hl hlane).mpr ⟨y, hy, rfl⟩, rfl⟩

theorem encodePiece_nested_iff {t : Handle} (hf : fields[n]? = some f) (ht : f.ty = .inline t) :
    encodePiece m path offset fields values before (nestedPiece n f) = .ok after ↔
      ∃ inner window, values[n]? = some (.struct t inner) ∧
        Buffer.encodeStruct m (path ++ [f.name]) before.2 (offset + f.offset) t inner =
          .ok window ∧ after = (before.1, window) := by
  have hn : (nestedPiece n f).field = n := rfl
  rw [encodePiece, hn, hf]
  cases hv : values[n]? with
  | none => simp
  | some v =>
    simp only [ht]
    cases v with
    | struct given inner =>
      by_cases hg : given = t
      · subst hg
        simp only [if_true, bind_eq_ok_iff, pure_eq_ok, Except.ok.injEq, Option.some.injEq,
          Value.struct.injEq, true_and]
        constructor
        · rintro ⟨window, hw, rfl⟩
          exact ⟨inner, window, rfl, hw, rfl⟩
        · rintro ⟨_, window, rfl, hw, rfl⟩
          exact ⟨window, hw, rfl⟩
      · simp [hg, Buffer.wrongType, Buffer.refuse]
    | _ => simp [Buffer.wrongType, Buffer.refuse]

end pieces

section groups

variable {m : Module} (hm : m.StructsSound) {path : List String} {offset : UInt32}
  {fields : List Field} {values : List Value} {window window' : Array UInt32} {g : Group}
  {h : Handle} {d : TypeDef} (hd : m.def? h = some d) (hb : d.body = .struct fields)
include hm hd hb

theorem encodePiece_scalar_iff {p : Piece} (hp : ScalarPiece fields p)
    {before after : UInt32 × Array UInt32} :
    encodePiece m path offset fields values before p = .ok after ↔
      ∃ x, Share fields values false p x ∧ after = (before.1 ||| x, before.2) := by
  obtain ⟨n, f, k, c, lane, hf, hl, hlane, rfl⟩ := hp
  have hp := (hm.struct hd hb).placed f (List.mem_of_getElem? hf)
  rw [encodePiece_leaf_iff hf hp hl hlane]
  simp only [share_leafPiece_iff hm hd hb hf hl hlane]
  constructor
  · rintro ⟨v, y, hv, hy, rfl⟩
    exact ⟨_, ⟨v, y, hv, hy, rfl⟩, rfl⟩
  · rintro ⟨x, ⟨v, y, hv, hy, rfl⟩, rfl⟩
    exact ⟨v, y, hv, hy, rfl⟩

theorem foldlM_encodePiece_iff {ps : List Piece} (hps : ∀ p ∈ ps, ScalarPiece fields p)
    {before after : UInt32 × Array UInt32} :
    ps.foldlM (encodePiece m path offset fields values) before = .ok after ↔
      ∃ shares, List.Forall₂ (Share fields values false) ps shares ∧
        after = (shares.foldl (· ||| ·) before.1, before.2) := by
  induction ps generalizing before with
  | nil => simp [eq_comm]
  | cons p ps ih =>
    rw [List.forall_mem_cons] at hps
    rw [foldlM_eq_ok_cons]
    constructor
    · rintro ⟨mid, hmid, hrest⟩
      obtain ⟨x, hx, rfl⟩ := (encodePiece_scalar_iff hm hd hb hps.1).mp hmid
      obtain ⟨shares, hshares, rfl⟩ := (ih hps.2).mp hrest
      exact ⟨x :: shares, .cons hx hshares, rfl⟩
    · rintro ⟨shares, hshares, rfl⟩
      cases hshares with
      | cons hx hrest =>
        exact ⟨_, (encodePiece_scalar_iff hm hd hb hps.1).mpr ⟨_, hx, rfl⟩,
          (ih hps.2).mpr ⟨_, hrest, rfl⟩⟩

theorem encodeGroup_scalars_iff (hraw : g.needsRaw = true)
    (hps : ∀ p ∈ g.pieces, ScalarPiece fields p) {j : Nat}
    (hj : (offset / 4 + g.word).toNat = j) (hin : j < window.size) :
    encodeGroup m path offset fields values window g = .ok window' ↔
      ∃ shares, List.Forall₂ (Share fields values false) g.pieces shares ∧
        window' = window.set! j (shares.foldl (· ||| ·) 0) := by
  rw [encodeGroup, bind_eq_ok_iff]
  simp only [foldlM_encodePiece_iff hm hd hb hps, hraw, if_true, Buffer.storeWord]
  constructor
  · rintro ⟨_, ⟨shares, hshares, rfl⟩, hstore⟩
    rw [hj, if_pos hin] at hstore
    exact ⟨shares, hshares, (Except.ok.inj hstore).symm⟩
  · rintro ⟨shares, hshares, rfl⟩
    refine ⟨_, ⟨shares, hshares, rfl⟩, ?_⟩
    rw [hj, if_pos hin]

omit hm hd hb in
theorem encodeGroup_nested_iff {n : Nat} {f : Field} {t : Handle} (hf : fields[n]? = some f)
    (ht : f.ty = .inline t) (hp : g.pieces = [nestedPiece n f]) :
    encodeGroup m path offset fields values window g = .ok window' ↔
      ∃ inner, values[n]? = some (.struct t inner) ∧
        Buffer.encodeStruct m (path ++ [f.name]) window (offset + f.offset) t inner =
          .ok window' := by
  have hraw : g.needsRaw = false := by simp [Group.needsRaw, hp, nestedPiece, Piece.isRaw]
  rw [encodeGroup, bind_eq_ok_iff, hp]
  simp only [foldlM_eq_ok_cons, encodePiece_nested_iff hf ht, hraw]
  constructor
  · rintro ⟨_, ⟨_, ⟨inner, w, hv, hw, rfl⟩, hnil⟩, hend⟩
    obtain rfl := Except.ok.inj hnil
    obtain rfl := Except.ok.inj hend
    exact ⟨inner, hv, hw⟩
  · rintro ⟨inner, hv, hw⟩
    exact ⟨_, ⟨_, ⟨inner, window', hv, hw, rfl⟩, rfl⟩, rfl⟩

omit hm hd hb in
theorem encodeGroup_nil (hp : g.pieces = []) :
    encodeGroup m path offset fields values window g = .ok window := by
  simp [encodeGroup, hp, Group.needsRaw]

end groups

section structs

variable {m : Module} (hm : m.StructsSound) {path : List String} {offset : UInt32} {h : Handle}
  {d : TypeDef} {fields : List Field} {values : List Value} {window window' : Array UInt32}
  {g : Group} (hd : m.def? h = some d) (hb : d.body = .struct fields)

def GroupTyped (m : Module) (fields : List Field) (values : List Value) (g : Group) : Prop :=
  ∀ (n : Nat) (f : Field) (v : Value), fields[n]? = some f → values[n]? = some v →
    (∀ k c lane, f.ty.leaf? = some (k, c) → lane < c → leafPiece n f k lane ∈ g.pieces →
      (lane? f.ty v lane).isSome = true) ∧
    (∀ t, f.ty = .inline t → nestedPiece n f ∈ g.pieces → WellTyped m f.ty v)

include hm hd hb

theorem encodeGroup_stored (hin : Inside window.size d.size offset)
    (hg : g ∈ resolve fields d.size .write)
    (hnested : ∀ (n : Nat) (f : Field) (t : Handle) (inner : List Value), fields[n]? = some f →
      f.ty = .inline t → values[n]? = some (.struct t inner) →
      Buffer.encodeStruct m (path ++ [f.name]) window (offset + f.offset) t inner = .ok window' →
      WellTyped m f.ty (.struct t inner) ∧
        Stored m f.ty (offset.toNat + f.offset.toNat) (.struct t inner) window window')
    (he : encodeGroup m path offset fields values window g = .ok window') :
    GroupStored m fields values offset.toNat g window window' ∧ GroupTyped m fields values g := by
  rcases write_group_cases hm hd hb hg with ⟨hraw, hps⟩ | ⟨n, f, t, hf, ht, hp⟩ | hnil
  · obtain ⟨hj, hlt⟩ := groupWord_inside hm hd hb hin hg hraw
    obtain ⟨shares, hshares, rfl⟩ := (encodeGroup_scalars_iff hm hd hb hraw hps hj hlt).mp he
    refine ⟨groupStored_word hm hd hb hin.1 hg hraw hlt hshares, fun n f v hf hv => ⟨?_, ?_⟩⟩
    · intro k c lane hl hlane hmem
      obtain ⟨x, -, hx⟩ := exists_right_of_mem hshares hmem
      obtain ⟨v', y, hv', hy, -⟩ := (share_leafPiece_iff hm hd hb hf hl hlane).mp hx
      obtain rfl := Option.some.inj (hv.symm.trans hv')
      rw [hy]
      rfl
    · intro t _ hmem
      obtain ⟨n', f', k, c, lane, -, -, -, hpiece⟩ := hps _ hmem
      have hr := leafPiece_isRaw n' f' k lane
      rw [← hpiece] at hr
      cases hr
  · obtain ⟨inner, hv, hin'⟩ := (encodeGroup_nested_iff hf ht hp).mp he
    obtain ⟨hwt, hst⟩ := hnested n f t inner hf ht hv hin'
    refine ⟨.nested hf ht hv hp hst, fun n' f' v' hf' hv' => ⟨?_, ?_⟩⟩
    · intro k c lane _ _ hmem
      rw [hp, List.mem_singleton] at hmem
      have hr := leafPiece_isRaw n' f' k lane
      rw [hmem] at hr
      cases hr
    · intro t' _ hmem
      rw [hp, List.mem_singleton] at hmem
      obtain rfl : n' = n := congrArg Piece.field hmem
      obtain rfl := Option.some.inj (hf.symm.trans hf')
      obtain rfl := Option.some.inj (hv.symm.trans hv')
      exact hwt
  · rw [encodeGroup_nil hnil] at he
    obtain rfl := Except.ok.inj he
    refine ⟨.none hnil rfl, fun n f v _ _ => ⟨?_, ?_⟩⟩
    · intro k c lane _ _ hmem
      simp [hnil] at hmem
    · intro t _ hmem
      simp [hnil] at hmem

theorem wellTyped_of_groups (hn : values.length = fields.length)
    (hall : ∀ g ∈ resolve fields d.size .write, GroupTyped m fields values g) :
    WellTyped m (.inline h) (.struct h values) := by
  have hs := hm.struct hd hb
  have hmem := fun p => mem_pieces_write_iff hs (hm.aligned h d hd) (p := p)
  refine .struct hd hb hn fun n f v hf hv => ?_
  have hp := hs.placed f (List.mem_of_getElem? hf)
  rcases leaf_or_inline hp with ⟨k, c, hl⟩ | ⟨t, ht⟩
  · rw [wellTyped_leaf_iff hl (hp.lanes_pos hl)]
    intro lane hlane
    obtain ⟨g, hg, -, hpg⟩ := exists_group_of_mem d.size
      ((hmem _).mpr ⟨n, f, hf, .inl ⟨k, c, lane, hl, hlane, rfl⟩⟩)
    exact (hall g (List.mem_of_getElem? hg) n f v hf hv).1 k c lane hl hlane hpg
  · obtain ⟨g, hg, -, hpg⟩ := exists_group_of_mem d.size
      ((hmem _).mpr ⟨n, f, hf, .inr ⟨t, ht, rfl⟩⟩)
    exact (hall g (List.mem_of_getElem? hg) n f v hf hv).2 t ht hpg

theorem encodeStruct_stored (hw : window.size ≤ 2 ^ 30) (hin : Inside window.size d.size offset)
    (he : Buffer.encodeStruct m path window offset h values = .ok window') :
    WellTyped m (.inline h) (.struct h values) ∧
      Stored m (.inline h) offset.toNat (.struct h values) window window' := by
  -- by induction on the handle, as nested structs have smaller ones
  induction hn : h.toNat using Nat.strong_induction_on
    generalizing path offset h d fields values window window' with
  | _ n ih =>
    obtain ⟨hlen, hfold⟩ := (encodeStruct_eq_ok_iff hd hb).mp he
    have hrun := Run.of_foldlM
      (R := fun g s t => GroupStored m fields values offset.toNat g s t ∧
        GroupTyped m fields values g)
      (P := fun s => s.size = window.size) _ (fun g hg s t hsize hstep => by
        rw [← hsize] at hw hin
        have hgroup := encodeGroup_stored hm hd hb hin hg (fun n f t inner hf ht hv hnest => by
          have hmemf := List.mem_of_getElem? hf
          obtain ⟨e, efields, hte, hbe, -, hlt, -⟩ := hm.inline_target hd hb hmemf ht
          obtain ⟨hine, hadd⟩ := Inside.nested hm hd hb hmemf ht hte hw hin
          rw [ht, ← hadd]
          exact ih t.toNat (hn ▸ UInt32.lt_iff_toNat_lt.mp hlt) hte hbe hw hine hnest rfl) hstep
        exact ⟨hgroup, hgroup.1.size_eq.trans hsize⟩) rfl hfold
    refine ⟨wellTyped_of_groups hm hd hb hlen fun g hg => ?_,
      stored_of_run hm hd hb hin.1 (hrun.imp fun _ _ _ h => h.1)⟩
    obtain ⟨s, t, -, htyped⟩ := hrun.exists_of_mem hg
    exact htyped

theorem exists_share (hv : WellTyped m (.inline h) (.struct h values)) (maskUnsigned : Bool)
    {p : Piece} (hp : ScalarPiece fields p) : ∃ x, Share fields values maskUnsigned p x := by
  obtain ⟨n, f, k, c, lane, hf, hl, hlane, rfl⟩ := hp
  obtain ⟨hlen, hall⟩ := hv.members hd hb
  obtain ⟨hn, rfl⟩ := List.getElem?_eq_some_iff.mp hf
  have hv := List.getElem?_eq_getElem (hlen ▸ hn)
  have hpos := ((hm.struct hd hb).placed _ (List.getElem_mem hn)).lanes_pos hl
  have hlanes := (wellTyped_leaf_iff hl hpos).mp (hall n _ _ hf hv) lane hlane
  obtain ⟨y, hy⟩ := Option.isSome_iff_exists.mp hlanes
  exact ⟨_, (share_leafPiece_iff hm hd hb hf hl hlane).mpr ⟨_, y, hv, hy, rfl⟩⟩

theorem exists_nested (hv : WellTyped m (.inline h) (.struct h values)) {n : Nat} {f : Field}
    {t : Handle} (hf : fields[n]? = some f) (ht : f.ty = .inline t) :
    ∃ inner, values[n]? = some (.struct t inner) ∧ WellTyped m (.inline t) (.struct t inner) := by
  obtain ⟨hlen, hall⟩ := hv.members hd hb
  obtain ⟨hn, rfl⟩ := List.getElem?_eq_some_iff.mp hf
  have hv := List.getElem?_eq_getElem (hlen ▸ hn)
  have hwt := hall n _ _ hf hv
  rw [ht] at hwt
  obtain ⟨e, efields, he, hbe, -⟩ := hm.inline_target hd hb (List.getElem_mem hn) ht
  obtain ⟨inner, hinner, -⟩ := (wellTyped_struct_iff he hbe).mp hwt
  rw [hinner] at hv hwt
  exact ⟨inner, hv, hwt⟩

theorem encodeStruct_ok (path : List String) (hw : window.size ≤ 2 ^ 30)
    (hin : Inside window.size d.size offset) (hv : WellTyped m (.inline h) (.struct h values)) :
    ∃ window', Buffer.encodeStruct m path window offset h values = .ok window' := by
  induction hn : h.toNat using Nat.strong_induction_on
    generalizing path offset h d fields values window with
  | _ n ih =>
    have hstep : ∀ g ∈ resolve fields d.size .write, ∀ s : Array UInt32, s.size = window.size →
        ∃ t, encodeGroup m (path ++ [d.name]) offset fields values s g = .ok t ∧
          t.size = window.size := by
      intro g hg s hsize
      rw [← hsize] at hw hin
      rcases write_group_cases hm hd hb hg with ⟨hraw, hps⟩ | ⟨n, f, t, hf, ht, hp⟩ | hnil
      · obtain ⟨hj, hlt⟩ := groupWord_inside hm hd hb hin hg hraw
        obtain ⟨shares, hshares⟩ := exists_forall₂ g.pieces fun p hp =>
          exists_share hm hd hb hv false (hps p hp)
        refine ⟨_, (encodeGroup_scalars_iff hm hd hb hraw hps hj hlt).mpr
          ⟨shares, hshares, rfl⟩, ?_⟩
        simp [hsize]
      · have hmemf := List.mem_of_getElem? hf
        obtain ⟨e, efields, hte, hbe, -, hlt, -⟩ := hm.inline_target hd hb hmemf ht
        obtain ⟨hine, -⟩ := Inside.nested hm hd hb hmemf ht hte hw hin
        obtain ⟨inner, hvn, hwt⟩ := exists_nested hm hd hb hv hf ht
        obtain ⟨w, hnest⟩ :=
          ih t.toNat (hn ▸ UInt32.lt_iff_toNat_lt.mp hlt) hte hbe (path ++ [d.name] ++ [f.name])
            hw hine hwt rfl
        refine ⟨w, (encodeGroup_nested_iff hf ht hp).mpr ⟨inner, hvn, hnest⟩, ?_⟩
        exact (encodeStruct_stored hm hte hbe hw hine hnest).2.size_eq.trans hsize
      · exact ⟨s, encodeGroup_nil hnil, hsize⟩
    obtain ⟨window', hfold, -⟩ := foldlM_ok _ hstep window rfl
    exact ⟨window', (encodeStruct_eq_ok_iff hd hb).mpr ⟨(hv.members hd hb).1, hfold⟩⟩

end structs

end WordLayout.Host
