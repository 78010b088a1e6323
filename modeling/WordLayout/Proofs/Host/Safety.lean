import Mathlib
import WordLayout.Proofs.Coverage.Walk
import WordLayout.Proofs.Host.Outcome

/-!
The operations of a buffer with every access guarded: each index and each slice is checked against
what it goes into, each round of a walk has to advance, and each nested struct has to have a smaller
handle than the definition that holds it. In an accepted module whose member ends do not wrap around
no guard ever fails. The guarded operations are the operations themselves, and all of them are
answered.
-/

namespace WordLayout.Host

open Word Coverage Validation

namespace Guarded

section groups

def walk (start stop : UInt32) : Except Fault Unit :=
  if start < stop then
    if start < cut start stop then walk (cut start stop) stop else .error .endless
  else .ok ()
termination_by stop.toNat - start.toNat
decreasing_by
  have h := cut_le start stop
  simp_all only [UInt32.le_iff_toNat_le, UInt32.lt_iff_toNat_lt]
  omega

def grow (p : Piece) (groups : Array Group) : Array Group :=
  if UInt32.ofNat groups.size ≤ p.word then
    grow p (groups.push ⟨UInt32.ofNat groups.size, []⟩)
  else groups
termination_by p.word.toNat + 1 - groups.size % 2 ^ 32
decreasing_by
  rename_i h
  have hword : p.word.toNat = p.offset.toNat / 4 := toNat_div_four p.offset
  have hlt := p.offset.toNat_lt
  rw [UInt32.le_iff_toNat_le, UInt32.toNat_ofNat'] at h
  simp only [Array.size_push]
  omega

def place (groups : Array Group) (p : Piece) : Except Fault (Array Group) :=
  match (grow p groups)[p.word.toNat]? with
  | some g => .ok ((grow p groups).set! p.word.toNat { g with pieces := g.pieces ++ [p] })
  | none => .error .outsideWords

def resolve (fields : List Field) (size : UInt32) (mode : Mode) : Except Fault (List Group) := do
  fields.forM fun f => (ranges mode f).forM fun r => walk r.1 (r.1 + r.2)
  let empty := (Array.range ((size + 3) / 4).toNat).map fun i => ⟨UInt32.ofNat i, []⟩
  pure (← (pieces mode fields).foldlM place empty).toList

end groups

section reading

def loadRaw (words : Array UInt32) (ix : UInt32) (groups : List Group) :
    Except Fault (Array UInt32) :=
  groups.foldlM (fun raw g =>
    if g.needsRaw then Buffer.wordAt words (ix + g.word) >>= Buffer.storeWord raw g.word
    else .ok raw) (Array.replicate groups.length 0)

def decodeField (nested : List String → Handle → UInt32 → Except Fault Value)
    (raw : Array UInt32) (path : List String) (d : TypeDef) (offset : UInt32) (f : Field) :
    Except Fault Value :=
  match f.ty with
  | .scalar kind => Buffer.decodeScalar raw f.offset kind
  | .vector kind lanes => do
    pure (.vector (← (List.range lanes.toNat).mapM fun lane =>
      Buffer.decodeScalar raw (f.offset + UInt32.ofNat lane * kind.size) kind))
  | .ref _ => do pure (.ref (← Buffer.wordAt raw (f.offset / 4)))
  | .inline target => nested (path ++ [d.name, f.name]) target (offset + f.offset)
  | .missing => .ok .nil

def decodeStruct (m : Module) (words : Array UInt32) (path : List String) (h : Handle)
    (offset : UInt32) : Except Fault Value := do
  let (d, fields) ← Buffer.structDef m .read path h
  let ix ← Buffer.base words.size .read d offset
  let raw ← loadRaw words ix (← resolve fields d.size .read)
  let values ← fields.mapM (decodeField (fun path t offset =>
    if _hlt : t < h then decodeStruct m words path t offset else .error .endless) raw path d offset)
  pure (.struct h values)
termination_by h.toNat
decreasing_by exact UInt32.lt_iff_toNat_lt.mp _hlt

end reading

section writing

def encodePiece
    (nested : List String → Array UInt32 → UInt32 → Handle → List Value →
      Except Fault (Array UInt32))
    (m : Module) (path : List String) (offset : UInt32) (fields : List Field)
    (values : List Value) (before : UInt32 × Array UInt32) (p : Piece) :
    Except Fault (UInt32 × Array UInt32) :=
  match values[p.field]?, fields[p.field]? with
  | some value, some f =>
    match f.ty, value with
    | .inline target, .struct given inner =>
      if given = target then do
        pure (before.1, ← nested (path ++ [f.name]) before.2 (offset + f.offset) given inner)
      else Buffer.wrongType (path ++ [f.name]) (Buffer.nameOrHandle m target) value
    | .inline target, _ =>
      Buffer.wrongType (path ++ [f.name]) (Buffer.nameOrHandle m target) value
    | ty, _ => do
      pure (before.1 ||| (← Buffer.encodeLeaf (path ++ [f.name]) p ty value), before.2)
  | _, _ => .error .outsideWords

def encodeStruct (m : Module) (path : List String) (window : Array UInt32) (offset : UInt32)
    (h : Handle) (values : List Value) : Except Fault (Array UInt32) := do
  let (d, fields) ← Buffer.structDef m .write path h
  if values.length = fields.length then
    (← resolve fields d.size .write).foldlM (fun window g => do
      let (word, window) ← g.pieces.foldlM (encodePiece (fun path window offset t inner =>
        if _hlt : t < h then encodeStruct m path window offset t inner else .error .endless)
        m (path ++ [d.name]) offset fields values) (0, window)
      if g.needsRaw then Buffer.storeWord window (offset / 4 + g.word) word else pure window)
      window
  else Buffer.refuse .write (path ++ [d.name]) (.fieldCount values.length fields.length)
termination_by h.toNat
decreasing_by exact UInt32.lt_iff_toNat_lt.mp _hlt

def slice (words : Array UInt32) (ix : UInt32) : Except Fault (Array UInt32) :=
  if ix.toNat ≤ words.size then .ok (words.extract ix.toNat words.size) else .error .outsideWords

def copy (target source : Array UInt32) : Array UInt32 :=
  source.extract 0 target.size ++ target.extract source.size target.size

def window (words : Array UInt32) (ix : UInt32) (d : TypeDef) : Except Fault (Array UInt32) := do
  pure (copy (Array.replicate (d.size / 4).toNat 0) (← slice words ix))

def replaceWords (words : Array UInt32) (ix : UInt32) (scratch : Array UInt32) :
    Except Fault (Array UInt32) := do
  pure (words.extract 0 ix.toNat ++ copy (← slice words ix) scratch)

end writing

section operations

def variantAt (variants : List Variant) (tag : UInt32) : Except Fault Variant :=
  match variants[tag.toNat]? with
  | some v => .ok v
  | none => .error .outsideWords

def decodePayload (b : Buffer) (h : Handle) (path : List String) (t : Handle) (offset : UInt32) :
    Except Fault Value :=
  if t < h then decodeStruct b.module b.words path t offset else .error .endless

def encodePayload (m : Module) (h : Handle) (path : List String) (scratch : Array UInt32)
    (at_ : UInt32) (t : Handle) (values : List Value) : Except Fault (Array UInt32) :=
  if t < h then encodeStruct m path scratch at_ t values else .error .endless

def readStruct (b : Buffer) (h : Handle) (offset : UInt32) : Except Fault Value :=
  decodeStruct b.module b.words [] h offset

def writeStruct (b : Buffer) (offset : UInt32) (h : Handle) (fields : List Value) :
    Except Fault Buffer := do
  let (d, _) ← Buffer.structDef b.module .write [] h
  let ix ← Buffer.base b.words.size .write d offset
  let scratch ← encodeStruct b.module [] (← window b.words ix d) 0 h fields
  pure { b with words := ← replaceWords b.words ix scratch }

def tag (b : Buffer) (h : Handle) (offset : UInt32) : Except Fault UInt32 := do
  let (d, _) ← Buffer.unionDef b.module .read h
  Buffer.wordAt b.words (← Buffer.base b.words.size .read d offset)

def readVariant (b : Buffer) (h : Handle) (tag offset : UInt32) : Except Fault Value := do
  let (d, variants) ← Buffer.unionDef b.module .read h
  let _ ← Buffer.base b.words.size .read d offset
  let (_, place) ← Buffer.payloadOf .read d variants tag
  let v ← variantAt variants tag
  match place with
  | some (at_, target) => decodePayload b h [d.name, v.name] target (offset + at_)
  | none => Buffer.refuse .read [d.name, v.name] .noPayload

def writeVariant (b : Buffer) (h : Handle) (tag offset : UInt32)
    (payload : Option (Handle × List Value)) : Except Fault Buffer := do
  let (d, variants) ← Buffer.unionDef b.module .write h
  let ix ← Buffer.base b.words.size .write d offset
  let (_, place) ← Buffer.payloadOf .write d variants tag
  let v ← variantAt variants tag
  let path := [d.name, v.name]
  Buffer.checkPayload b.module path (place.map (·.2)) payload
  let scratch ← Buffer.storeWord (← window b.words ix d) 0 tag
  let scratch ←
    match place, payload with
    | some (at_, _), some (given, fields) =>
      encodePayload b.module h path scratch at_ given fields
    | _, _ => pure scratch
  pure { b with words := ← replaceWords b.words ix scratch }

def writeUnion (b : Buffer) (h : Handle) (offset tag : UInt32)
    (payload : Option (Handle × List Value)) : Except Fault Buffer :=
  writeVariant b h tag offset payload

def readUnion (b : Buffer) (h : Handle) (offset : UInt32) : Except Fault UnionValue := do
  let (d, variants) ← Buffer.unionDef b.module .read h
  let tag ← Buffer.wordAt b.words (← Buffer.base b.words.size .read d offset)
  let (_, place) ← Buffer.payloadOf .read d variants tag
  match place with
  | some (at_, target) => do
    let v ← variantAt variants tag
    let payload ← decodePayload b h [d.name, v.name] target (offset + at_)
    pure { tag, payload := some payload }
  | none => pure { tag, payload := none }

end operations

section groups

def table (n : Nat) (ps : List Piece) : Array Group :=
  (Array.range n).map fun i => ⟨UInt32.ofNat i, ps.filter fun p => p.word.toNat == i⟩

theorem walk_eq_ok {start stop : UInt32} (hadv : Advances start stop) :
    walk start stop = .ok () := by
  fun_induction walk start stop with
  | case1 start hlt hcut ih =>
    apply ih
    intro off next hoff hround
    exact hadv off next (hoff.head (.next hlt)) hround
  | case2 start hlt hcut =>
    have hround := hadv _ _ .refl (.next hlt)
    exact absurd (UInt32.lt_iff_toNat_lt.mpr hround.1) hcut
  | case3 start hlt => rfl

theorem getElem?_table (n : Nat) (ps : List Piece) (i : Nat) :
    (table n ps)[i]? =
      if i < n then some ⟨UInt32.ofNat i, ps.filter fun p => p.word.toNat == i⟩ else none := by
  by_cases hi : i < n <;> simp [table, hi]

theorem table_push {n : Nat} {ps : List Piece} (hps : ∀ p ∈ ps, p.word.toNat < n) :
    (table n ps).push ⟨UInt32.ofNat n, []⟩ = table (n + 1) ps := by
  have hnone : (ps.filter fun p => p.word.toNat == n) = [] := by
    rw [List.filter_eq_nil_iff]
    intro p hp
    have := hps p hp
    simp only [beq_iff_eq]
    omega
  simp [table, Array.range_succ, hnone]

theorem grow_table (p : Piece) {n : Nat} {ps : List Piece} (hn : n ≤ 2 ^ 30)
    (hps : ∀ q ∈ ps, q.word.toNat < n) :
    grow p (table n ps) = table (max n (p.word.toNat + 1)) ps := by
  have hword : p.word.toNat = p.offset.toNat / 4 := toNat_div_four p.offset
  have hlt := p.offset.toNat_lt
  have hsize : (table n ps).size = n := by simp [table]
  -- by induction on the groups that are missing
  induction hk : p.word.toNat + 1 - n generalizing n with
  | zero =>
    rw [grow, if_neg, show max n (p.word.toNat + 1) = n by omega]
    rw [UInt32.le_iff_toNat_le, UInt32.toNat_ofNat', hsize]
    omega
  | succ k ih =>
    rw [grow, if_pos, hsize, table_push hps, ih (by omega) _ (by simp [table]) (by omega)]
    · congr 1
      omega
    · intro q hq
      exact (hps q hq).trans (Nat.lt_succ_self n)
    · rw [UInt32.le_iff_toNat_le, UInt32.toNat_ofNat', hsize]
      omega

theorem place_table (p : Piece) {n : Nat} {ps : List Piece} (hn : n ≤ 2 ^ 30)
    (hps : ∀ q ∈ ps, q.word.toNat < n) :
    place (table n ps) p = .ok (table (max n (p.word.toNat + 1)) (ps ++ [p])) := by
  have hlt : p.word.toNat < max n (p.word.toNat + 1) := by omega
  have hget : (table (max n (p.word.toNat + 1)) ps)[p.word.toNat]? =
      some ⟨p.word, ps.filter fun q => q.word.toNat == p.word.toNat⟩ := by
    rw [getElem?_table, if_pos hlt, UInt32.ofNat_toNat]
  rw [place, grow_table p hn hps, hget]
  simp only [Except.ok.injEq]
  apply Array.ext_getElem?
  intro i
  rw [Array.set!_eq_setIfInBounds, getElem?_table]
  by_cases hi : p.word.toNat = i
  · subst hi
    simp [table]
  · rw [Array.getElem?_setIfInBounds_ne hi, getElem?_table]
    simp [hi]

theorem foldlM_place (ps : List Piece) {n : Nat} {done : List Piece} (hn : n ≤ 2 ^ 30)
    (hdone : ∀ p ∈ done, p.word.toNat < n) :
    ps.foldlM place (table n done) =
      .ok (table (ps.foldl (fun n p => max n (p.word.toNat + 1)) n) (done ++ ps)) := by
  induction ps generalizing n done with
  | nil => simp
  | cons p ps ih =>
    have hword : p.word.toNat = p.offset.toNat / 4 := toNat_div_four p.offset
    have hlt := p.offset.toNat_lt
    rw [List.foldlM_cons, place_table p hn hdone, ok_bind, ih (by omega), List.foldl_cons,
      List.append_assoc, List.singleton_append]
    intro q hq
    rcases List.mem_append.mp hq with hq | hq
    · exact (hdone q hq).trans_le (le_max_left _ _)
    · obtain rfl := List.mem_singleton.mp hq
      exact (Nat.lt_succ_self _).trans_le (le_max_right _ _)

theorem resolve_eq_ok {m : Module} (hv : m.validate = []) (hx : m.ExactEnds) {d : TypeDef}
    (hd : d ∈ m.defs) {fields : List Field} (hb : d.body = .struct fields) (mode : Mode) :
    resolve fields d.size mode = .ok (Coverage.resolve fields d.size mode) := by
  have hwalks : (fields.forM fun f => (ranges mode f).forM fun r => walk r.1 (r.1 + r.2)) =
      (.ok () : Except Fault Unit) := by
    rw [forM_eq_ok_iff]
    intro f hf
    rw [forM_eq_ok_iff]
    intro r hr
    apply walk_eq_ok
    apply advances_of_not_inLastWord
    exact range_not_inLastWord hv hd hb (not_laneInLastWord hv hd hb hx) hf hr
  have hempty : (Array.range ((d.size + 3) / 4).toNat).map (fun i => (⟨UInt32.ofNat i, []⟩ : Group)) =
      table ((d.size + 3) / 4).toNat [] := by simp [table]
  have hcount : ((d.size + 3) / 4).toNat ≤ 2 ^ 30 := by
    have hlt := (d.size + 3).toNat_lt
    rw [toNat_div_four]
    omega
  rw [resolve, hwalks, ok_bind]
  simp only
  rw [hempty, foldlM_place _ hcount (by simp), ok_bind, pure_eq_ok, Coverage.resolve_eq]
  simp [table, wordCount]

end groups

section reading

theorem foldlM_loadRaw (words : Array UInt32) (ix : UInt32) (groups : List Group)
    (done : List UInt32) (hword : ∀ (i : Nat) (g : Group), groups[i]? = some g →
      g.word.toNat = done.length + i) :
    groups.foldlM (fun raw g =>
        if g.needsRaw then Buffer.wordAt words (ix + g.word) >>= Buffer.storeWord raw g.word
        else .ok raw) (done ++ List.replicate groups.length 0).toArray =
      groups.mapM (fun g => if g.needsRaw then Buffer.wordAt words (ix + g.word) else .ok 0) >>=
        fun rest => .ok (done ++ rest).toArray := by
  induction groups generalizing done with
  | nil => simp
  | cons g groups ih =>
    have hg : g.word.toNat = done.length := hword 0 g rfl
    have hstore : ∀ w : UInt32, Buffer.storeWord
        (done ++ List.replicate (groups.length + 1) 0).toArray g.word w =
          .ok (done ++ [w] ++ List.replicate groups.length 0).toArray := by
      intro w
      rw [Buffer.storeWord, if_pos (by simp [hg]), hg]
      simp [List.replicate_succ]
    have hrest := fun w : UInt32 => ih (done ++ [w]) (by
      intro i g' hg'
      rw [hword (i + 1) g' hg', List.length_append, List.length_singleton]
      omega)
    rw [List.foldlM_cons, List.mapM_cons, List.length_cons]
    by_cases hraw : g.needsRaw = true
    · simp only [hraw, if_true]
      cases Buffer.wordAt words (ix + g.word) with
      | error e => rfl
      | ok w =>
        simp only [ok_bind, hstore, hrest]
        simp
    · have hzero := hrest 0
      rw [List.append_assoc, List.singleton_append, ← List.replicate_succ] at hzero
      rw [if_neg hraw, if_neg hraw, ok_bind, hzero]
      simp

theorem loadRaw_eq (words : Array UInt32) (ix : UInt32) (fields : List Field) (size : UInt32) :
    loadRaw words ix (Coverage.resolve fields size .read) =
      Buffer.loadRaw words ix (Coverage.resolve fields size .read) := by
  have hword : ∀ (i : Nat) (g : Group), (Coverage.resolve fields size .read)[i]? = some g →
      g.word.toNat = ([] : List UInt32).length + i := by
    intro i g hg
    have hle := wordCount_le size (pieces .read fields)
    rw [Coverage.resolve_eq] at hg
    obtain ⟨hi, rfl⟩ := List.getElem?_eq_some_iff.mp hg
    simp only [List.length_map, List.length_range] at hi
    simp only [List.getElem_map, List.getElem_range]
    rw [UInt32.toNat_ofNat_of_lt' (by change _ < 2 ^ 32; omega), List.length_nil, Nat.zero_add]
  have hfold := foldlM_loadRaw words ix (Coverage.resolve fields size .read) [] hword
  simp only [List.nil_append] at hfold
  rw [loadRaw, Buffer.loadRaw, ← List.toArray_replicate, hfold]
  rfl

variable {m : Module} (hv : m.validate = []) (hx : m.ExactEnds)
include hv hx

theorem decodeStruct_eq {words : Array UInt32} {fuel : Nat} {h : Handle} (hpos : 0 < fuel)
    (hfuel : ∀ d, m.def? h = some d → h.toNat < fuel) (path : List String) (offset : UInt32) :
    decodeStruct m words path h offset = Buffer.decodeStruct m words fuel path h offset := by
  induction fuel generalizing path h offset with
  | zero => omega
  | succ fuel ih =>
    rw [decodeStruct, Buffer.decodeStruct]
    apply bind_congr_ok
    rintro ⟨d, fields⟩ hdef
    obtain ⟨hd, hb⟩ := structDef_eq_ok.mp hdef
    have hlt := hfuel d hd
    apply bind_congr_ok
    intro ix _
    rw [resolve_eq_ok hv hx (m.mem_of_def? hd) hb, ok_bind, loadRaw_eq]
    apply bind_congr_ok
    intro raw _
    congr 1
    apply mapM_congr
    intro f hf
    unfold decodeField
    cases hty : f.ty with
    | inline t =>
      have hearlier := (wellFormed_of_validate hv hx).struct hd hb |>.earlier f hf t hty
      have hsmaller := UInt32.lt_iff_toNat_lt.mp hearlier
      simp only [hearlier, dite_true]
      exact ih (by omega) (fun _ _ => by omega) _ _
    | _ => rfl

end reading

section writing

variable {m : Module} (hv : m.validate = []) (hx : m.ExactEnds)

theorem encodePiece_eq {nested : List String → Array UInt32 → UInt32 → Handle → List Value →
      Except Fault (Array UInt32)} {fields : List Field} {path : List String} {offset : UInt32}
    {values : List Value}
    (hnested : ∀ f ∈ fields, ∀ t, f.ty = .inline t → ∀ path window offset inner,
      nested path window offset t inner = Buffer.encodeStruct m path window offset t inner) :
    encodePiece nested m path offset fields values =
      Host.encodePiece m path offset fields values := by
  funext before p
  rw [encodePiece, Host.encodePiece]
  cases values[p.field]? with
  | none => rfl
  | some value =>
    cases hf : fields[p.field]? with
    | none => rfl
    | some f =>
      simp only
      cases hty : f.ty with
      | inline t =>
        cases value with
        | struct given inner =>
          by_cases hg : given = t
          · subst hg
            simp only [if_true, hnested f (List.mem_of_getElem? hf) given hty]
          · simp only [hg, if_false]
        | _ => rfl
      | _ => rfl

include hv hx

theorem encodeStruct_eq (path : List String) (window : Array UInt32) (offset : UInt32) (h : Handle)
    (values : List Value) :
    encodeStruct m path window offset h values =
      Buffer.encodeStruct m path window offset h values := by
  -- by induction on the handle, as nested structs have smaller ones
  induction hn : h.toNat using Nat.strong_induction_on
    generalizing path window offset h values with
  | _ n ih =>
    rw [encodeStruct]
    cases hdef : Buffer.structDef m .write path h with
    | error e =>
      rw [Buffer.encodeStruct, hdef]
      rfl
    | ok p =>
      obtain ⟨d, fields⟩ := p
      obtain ⟨hd, hb⟩ := structDef_eq_ok.mp hdef
      simp only [ok_bind, resolve_eq_ok hv hx (m.mem_of_def? hd) hb]
      rw [Host.encodeStruct_eq hd hb, encodePiece_eq]
      · rfl
      · intro f hf t hty path window offset inner
        have hearlier := (wellFormed_of_validate hv hx).struct hd hb |>.earlier f hf t hty
        simp only [hearlier, dite_true]
        exact ih t.toNat (hn ▸ UInt32.lt_iff_toNat_lt.mp hearlier) _ _ _ _ _ rfl

omit hv hx in
theorem slice_eq {words : Array UInt32} {ix : UInt32} (hix : ix.toNat ≤ words.size) :
    slice words ix = .ok (words.extract ix.toNat words.size) := if_pos hix

omit hv hx in
theorem window_eq {b : Buffer} {d : TypeDef} {offset : UInt32}
    (hin : Inside b.words.size d.size offset) :
    window b.words (offset / 4) d = .ok (Buffer.window b.words (offset / 4) d) := by
  obtain ⟨ha, hbound⟩ := hin
  have hix := toNat_div_four offset
  have hshort : d.size.toNat / 4 - (b.words.size - offset.toNat / 4) = 0 := by omega
  rw [window, slice_eq (by omega), ok_bind, pure_eq_ok, copy, Buffer.window]
  simp [Array.extract_extract, hshort, Nat.min_eq_left hbound]

omit hv hx in
theorem replaceWords_eq {words scratch : Array UInt32} {ix : UInt32}
    (hfit : ix.toNat + scratch.size ≤ words.size) :
    replaceWords words ix scratch = .ok (Buffer.replaceWords words ix.toNat scratch) := by
  have hshort : scratch.size ≤ words.size - ix.toNat := by omega
  have hix : ix.toNat + (words.size - ix.toNat) = words.size := by omega
  rw [replaceWords, slice_eq (by omega), ok_bind, pure_eq_ok, copy, Buffer.replaceWords]
  simp [Array.extract_extract, hix, Array.extract_eq_self_of_le hshort, Array.append_assoc]

end writing

section operations

variable {b : Buffer} (hv : b.module.validate = []) (hx : b.module.ExactEnds)
include hv hx

theorem readStruct_eq (h : Handle) (offset : UInt32) :
    readStruct b h offset = b.readStruct h offset :=
  decodeStruct_eq hv hx (Nat.succ_pos _) (fun _ hd => lt_depth hd) [] offset

theorem writeStruct_eq (offset : UInt32) (h : Handle) (values : List Value) :
    writeStruct b offset h values = b.writeStruct offset h values := by
  have hm := wellFormed_of_validate hv hx
  apply bind_congr_ok
  rintro ⟨d, fields⟩ hdef
  obtain ⟨hd, hb⟩ := structDef_eq_ok.mp hdef
  apply bind_congr_ok
  intro ix hbase
  obtain ⟨hin, rfl⟩ := base_eq_ok.mp hbase
  rw [window_eq hin, ok_bind, encodeStruct_eq hv hx]
  apply bind_congr_ok
  intro scratch hscratch
  obtain ⟨hfit, hsize, -, -⟩ := window_inside hin
  have hlt := d.size.toNat_lt
  have hzero : Inside (Buffer.window b.words (offset / 4) d).size d.size 0 :=
    ⟨rfl, by rw [hsize]; exact (Nat.zero_add _).le⟩
  have hst := (encodeStruct_stored hm hd hb (by omega) hzero hscratch).2
  rw [replaceWords_eq (by rw [hst.size_eq]; exact hfit)]
  rfl

omit hv hx in
theorem variantAt_eq {variants : List Variant} {tag : UInt32} {v : Variant}
    (hvar : variants[tag.toNat]? = some v) : variantAt variants tag = .ok v := by
  rw [variantAt, hvar]

theorem decodePayload_eq {h : Handle} {d : TypeDef} {variants : List Variant}
    (hd : b.module.def? h = some d) (hb : d.body = .union variants) {v : Variant} {at_ : UInt32}
    {t : Handle} (hvar : v ∈ variants) (hp : PayloadPlace v.payload (some (at_, t)))
    (path : List String) (offset : UInt32) :
    decodePayload b h path t offset =
      Buffer.decodeStruct b.module b.words b.depth path t offset := by
  have hps := hp.sound hvar ((wellFormed_of_validate hv hx).union hd hb)
  rw [decodePayload, if_pos hps.earlier]
  exact decodeStruct_eq hv hx (Nat.succ_pos _) (fun _ he => lt_depth he) path offset

theorem readVariant_eq (h : Handle) (tag offset : UInt32) :
    readVariant b h tag offset = b.readVariant h tag offset := by
  apply bind_congr_ok
  rintro ⟨d, variants⟩ hdef
  obtain ⟨hd, hb⟩ := unionDef_eq_ok.mp hdef
  apply bind_congr_ok
  intro ix _
  apply bind_congr_ok
  rintro ⟨_, place⟩ hpay
  obtain ⟨v, hvar, rfl, hplace⟩ := payloadOf_eq_ok.mp hpay
  simp only [variantAt_eq hvar, ok_bind]
  cases place with
  | none => rfl
  | some place => exact decodePayload_eq hv hx hd hb (List.mem_of_getElem? hvar) hplace _ _

theorem readUnion_eq (h : Handle) (offset : UInt32) :
    readUnion b h offset = b.readUnion h offset := by
  apply bind_congr_ok
  rintro ⟨d, variants⟩ hdef
  obtain ⟨hd, hb⟩ := unionDef_eq_ok.mp hdef
  apply bind_congr_ok
  intro ix _
  apply bind_congr_ok
  intro tag _
  apply bind_congr_ok
  rintro ⟨_, place⟩ hpay
  obtain ⟨v, hvar, rfl, hplace⟩ := payloadOf_eq_ok.mp hpay
  cases place with
  | none => rfl
  | some place =>
    simp only [variantAt_eq hvar, ok_bind,
      decodePayload_eq hv hx hd hb (List.mem_of_getElem? hvar) hplace]

theorem writeVariant_eq (h : Handle) (tag offset : UInt32)
    (payload : Option (Handle × List Value)) :
    writeVariant b h tag offset payload = b.writeVariant h tag offset payload := by
  have hm := wellFormed_of_validate hv hx
  apply bind_congr_ok
  rintro ⟨d, variants⟩ hdef
  obtain ⟨hd, hb⟩ := unionDef_eq_ok.mp hdef
  apply bind_congr_ok
  intro ix hbase
  obtain ⟨hin, rfl⟩ := base_eq_ok.mp hbase
  apply bind_congr_ok
  rintro ⟨_, place⟩ hpay
  obtain ⟨v, hvar, rfl, hplace⟩ := payloadOf_eq_ok.mp hpay
  simp only [variantAt_eq hvar, ok_bind]
  apply bind_congr_ok
  rintro ⟨⟩ hcheck
  have htarget := checkPayload_eq_ok.mp hcheck
  have hs := hm.union hd hb
  obtain ⟨hfit, hsize, -, -⟩ := window_inside hin
  rw [window_eq hin, ok_bind, (storeTag_window tag hin hs.room).1, ok_bind, ok_bind]
  cases place with
  | none =>
    cases payload with
    | some p => simp at htarget
    | none =>
      simp only [pure_eq_ok, ok_bind]
      rw [replaceWords_eq (by simpa using hfit)]
      rfl
  | some place =>
    obtain ⟨at_, t⟩ := place
    cases payload with
    | none => simp at htarget
    | some p =>
      obtain ⟨given, values⟩ := p
      obtain rfl : given = t := by simpa using htarget
      have hps := hplace.sound (List.mem_of_getElem? hvar) hs
      obtain ⟨e, fields, he, hbe, hine⟩ := payload_inside_window tag hm hin hps
      have hlt := d.size.toNat_lt
      simp only [encodePayload, if_pos hps.earlier, encodeStruct_eq hv hx]
      apply bind_congr_ok
      intro scratch hscratch
      have hst := (encodeStruct_stored hm he hbe (by simp; omega) hine hscratch).2
      rw [replaceWords_eq (by rw [hst.size_eq]; simpa using hfit)]
      rfl

end operations

end Guarded

def Safe {α : Type} (guarded plain : Except Fault α) : Prop := guarded = plain ∧ Answered plain

/-- Every operation of a buffer is safe, whatever its arguments. A struct whose own place is inside
the buffer is read with all that is nested in it. -/
theorem operations_safe {b : Buffer} (hv : b.module.validate = []) (hx : b.module.ExactEnds)
    (hw : b.words.size ≤ 2 ^ 30) :
    (∀ h offset, Safe (Guarded.readStruct b h offset) (b.readStruct h offset)) ∧
    (∀ offset h values,
      Safe (Guarded.writeStruct b offset h values) (b.writeStruct offset h values)) ∧
    (∀ h offset, Safe (Guarded.tag b h offset) (b.tag h offset)) ∧
    (∀ h tag offset, Safe (Guarded.readVariant b h tag offset) (b.readVariant h tag offset)) ∧
    (∀ h tag offset payload,
      Safe (Guarded.writeVariant b h tag offset payload) (b.writeVariant h tag offset payload)) ∧
    (∀ h offset, Safe (Guarded.readUnion b h offset) (b.readUnion h offset)) ∧
    (∀ h offset tag payload,
      Safe (Guarded.writeUnion b h offset tag payload) (b.writeUnion h offset tag payload)) ∧
    ∀ h offset d fields ix, Buffer.structDef b.module .read [] h = .ok (d, fields) →
      Buffer.base b.words.size .read d offset = .ok ix →
      ∃ values, b.readStruct h offset = .ok (.struct h values) := by
  have hm := wellFormed_of_validate hv hx
  have hwrite : ∀ h tag offset payload, Safe (Guarded.writeVariant b h tag offset payload)
      (b.writeVariant h tag offset payload) := by
    intro h tag offset payload
    exact ⟨Guarded.writeVariant_eq hv hx h tag offset payload,
      (writeVariant_alike hm rfl rfl tag payload).answered⟩
  refine ⟨?_, ?_, ?_, ?_, hwrite, ?_, ?_, ?_⟩
  · intro h offset
    exact ⟨Guarded.readStruct_eq hv hx h offset,
      (readStruct_alike hm hw rfl rfl (.refl b h offset)).answered⟩
  · intro offset h values
    exact ⟨Guarded.writeStruct_eq hv hx offset h values,
      (writeStruct_alike hm rfl rfl values).answered⟩
  · intro h offset
    exact ⟨rfl, (tag_alike hm rfl rfl (.refl b h offset)).answered⟩
  · intro h tag offset
    exact ⟨Guarded.readVariant_eq hv hx h tag offset,
      (readVariant_alike hm hw rfl rfl tag (.refl b h offset)).answered⟩
  · intro h offset
    exact ⟨Guarded.readUnion_eq hv hx h offset,
      (readUnion_alike hm hw rfl rfl (.refl b h offset)).answered⟩
  · intro h offset tag payload
    exact hwrite h tag offset payload
  · intro h offset d fields ix hdef hbase
    obtain ⟨hd, hb⟩ := structDef_eq_ok.mp hdef
    obtain ⟨hin, -⟩ := base_eq_ok.mp hbase
    obtain ⟨values, hvalues⟩ := exists_holds hm (bitsOf b.words) hd hb offset.toNat
    exact ⟨values, readStruct_of_holds hm hw hd hb hin hvalues⟩

theorem operations_safe_sample :
    sampleModule.validate = [] ∧ sampleModule.ExactEnds ∧
      (∃ values, Buffer.readStruct ⟨sampleModule, Array.replicate 8 0xFFFFFFFF⟩ 1 4 =
        .ok (.struct 1 values)) ∧
      Safe (Guarded.readUnion ⟨sampleModule, Array.replicate 8 0xFFFFFFFF⟩ 2 8)
        (.error (.refused ⟨.read, .invalidTag 0xFFFFFFFF 2, ["U"]⟩)) ∧
      Safe (Guarded.writeStruct ⟨sampleModule, Array.replicate 8 0xFFFFFFFF⟩ 4 1 [.nil])
        (.error (.refused ⟨.write, .fieldCount 1 3, ["S"]⟩)) := by
  have hx : sampleModule.ExactEnds := by decide
  obtain ⟨-, hwrite, -, -, -, hunion, -, hread⟩ := operations_safe
    (b := ⟨sampleModule, Array.replicate 8 0xFFFFFFFF⟩) sampleModule_accepted hx (by decide)
  have hrefused : Buffer.readUnion ⟨sampleModule, Array.replicate 8 0xFFFFFFFF⟩ 2 8 =
      .error (.refused ⟨.read, .invalidTag 0xFFFFFFFF 2, ["U"]⟩) := by cbv
  have hshort : Buffer.writeStruct ⟨sampleModule, Array.replicate 8 0xFFFFFFFF⟩ 4 1 [.nil] =
      .error (.refused ⟨.write, .fieldCount 1 3, ["S"]⟩) := by cbv
  refine ⟨sampleModule_accepted, hx, hread 1 4 _ _ _ rfl rfl, ?_, ?_⟩
  · rw [← hrefused]
    exact hunion 2 8
  · rw [← hshort]
    exact hwrite 4 1 [.nil]

end WordLayout.Host
