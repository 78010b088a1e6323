import Mathlib
import WordLayout.Proofs.Shader.Readers

namespace WordLayout.Shader

open Word Coverage Host Validation

section members

variable {m : Module} {fr : Frame} {fields : List Field} {values : List Host.Value}

def MembersGiven (m : Module) (fields : List Field) (values : List Host.Value) (fr : Frame) :
    Prop :=
  ∀ (n : Nat) (f : Field) (v : Host.Value), fields[n]? = some f → values[n]? = some v →
    fr.s.bind (·.get? f.name) = some (widen m f.ty v)

theorem membersGiven_of_zip (hn : (fields.map (·.name)).Nodup)
    (hlen : values.length = fields.length) {type : String}
    (hs : fr.s = some ⟨type, ((fields.zip values).map fun q => (q.1.name, widen m q.1.ty q.2)).map
      fun q => (q.1, some q.2)⟩) : MembersGiven m fields values fr := by
  intro n f v hf hv
  have hmem : (f, v) ∈ fields.zip values :=
    List.mem_of_getElem? (List.getElem?_zip_eq_some.mpr ⟨hf, hv⟩)
  have hnames : ((fields.zip values).map (·.1.name)).Nodup := by
    rwa [map_fst_zip hlen]
  have hlookup := @lookup_of_mem _ _ (fields.zip values) (·.1.name)
    (fun q => some (widen m q.1.ty q.2)) hnames _ hmem
  rw [hs, Option.bind_some, Local.get?, List.map_map]
  exact congrArg Option.join hlookup

theorem eval_lane_member {name : String} {k : ScalarKind} {lanes : UInt8} {lane : Nat}
    {v : Host.Value} {y : UInt32}
    (hmember : fr.s.bind (·.get? name) = some (widen m (.vector k lanes) v))
    (hlane : lane < lanes.toNat) (hfour : lanes.toNat ≤ 4)
    (hy : lane? (.vector k lanes) v lane = some y) :
    (Expr.member name (if 1 < lanes then some lane else none)).eval fr =
      some (.ofKind k y) := by
  cases v with
  | vector vs =>
    simp only [lane?] at hy
    split at hy
    · rename_i hlen
      obtain ⟨u, hu, hbits⟩ := Option.bind_eq_some_iff.mp hy
      rw [← widenScalar_of_bits hbits]
      by_cases hone : lanes = 1
      · subst hone
        obtain ⟨u', rfl⟩ := List.length_eq_one_iff.mp hlen
        obtain rfl : lane = 0 := Nat.lt_one_iff.mp hlane
        obtain rfl := Option.some.inj hu
        exact hmember
      · have hlt : 1 < lanes := by
          rw [UInt8.lt_iff_toNat_lt]
          have hne : lanes.toNat ≠ 1 := fun h => hone (UInt8.toNat_inj.mp h)
          exact lt_of_le_of_ne (Nat.one_le_of_lt hlane) hne.symm
        rw [widen_vector hlen hone] at hmember
        obtain ⟨s, hs, hget⟩ := Option.bind_eq_some_iff.mp hmember
        simp [Expr.eval, hlt, hs, hget, Value.vector_member? _ (hlane.trans_le hfour), hu]
    · cases hy
  | _ => simp [lane?] at hy

variable (hs : MembersGiven m fields values fr) {n : Nat} {f : Field} {k : ScalarKind}
  {c lane : Nat} {v : Host.Value} {y : UInt32} {size : UInt32} (hp : f.Placed m size)
  (hf : fields[n]? = some f) (hl : f.ty.leaf? = some (k, c)) (hlane : lane < c)
  (hv : values[n]? = some v) (hy : lane? f.ty v lane = some y)
include hs hp hf hl hlane hv hy

theorem part_pieceExpr (maskUnsigned : Bool) :
    ∃ e, pieceExpr? maskUnsigned fields (leafPiece n f k lane) = some e ∧
      e.part fr = some ((Insert.plan (leafPiece n f k lane).offset k maskUnsigned).bits y) := by
  have hfield : (leafPiece n f k lane).field = n := rfl
  have hmember := hs n f v hf hv
  cases ht : f.ty with
  | scalar k' =>
    obtain ⟨rfl, rfl⟩ : k' = k ∧ 1 = c := by simpa [ht, Ty.leaf?] using hl
    rw [ht] at hy
    refine ⟨insertExpr maskUnsigned (leafPiece n f k' lane).offset k' (.member f.name none),
      by simp [pieceExpr?, hfield, hf, ht], part_insertExpr maskUnsigned _ ?_ rfl⟩
    rw [← widen_scalar m f.ty hy]
    exact hmember
  | vector k' lanes =>
    obtain ⟨rfl, rfl⟩ : k' = k ∧ lanes.toNat = c := by simpa [ht, Ty.leaf?] using hl
    rw [ht] at hmember hy
    have hpiece : (leafPiece n f k' lane).lane = some lane := by simp [leafPiece, ht]
    have hknown := hp.known
    rw [ht] at hknown
    exact ⟨_, by simp [pieceExpr?, hfield, hf, ht, hpiece],
      part_insertExpr maskUnsigned _ (eval_lane_member hmember hlane hknown.2.2 hy) rfl⟩
  | ref t =>
    obtain ⟨rfl, rfl⟩ : .u32 = k ∧ 1 = c := by simpa [ht, Ty.leaf?] using hl
    have halign := hp.laneOffset_aligned hl lane
    rw [← hp.laneOffset_toNat hl hlane] at halign
    rw [ht] at hmember hy
    cases v with
    | ref r =>
      obtain rfl : r = y := Option.some.inj hy
      obtain ⟨s, hs, hget⟩ := Option.bind_eq_some_iff.mp hmember
      have hbits := Insert.bits_plan_whole rfl halign maskUnsigned
      refine ⟨.offset f.name, by simp [pieceExpr?, hfield, hf, ht], ?_⟩
      simp [Expr.part, Expr.eval, hs, hget, widen, Expr.isPrimary, leafPiece, hbits]
    | _ => simp [lane?] at hy
  | inline t => simp [ht, Ty.leaf?] at hl
  | missing => simp [ht, Ty.leaf?] at hl

end members

section groups

variable {m : Module} {o : Options} {call : Call} {fr : Frame} {fields : List Field}
  {values : List Host.Value} {words : Array UInt32} {g : Group}
  (hm : m.WellFormed) {h : Handle} {d : TypeDef} (hd : m.def? h = some d)
  (hb : d.body = .struct fields) (hs : MembersGiven m fields values fr)

include hm hd hb hs in
theorem mapM_part {maskUnsigned : Bool} {ps : List Piece} {shares : List UInt32}
    (hshares : List.Forall₂ (Share fields values maskUnsigned) ps shares) :
    (ps.filterMap (pieceExpr? maskUnsigned fields)).mapM (Expr.part fr) = some shares := by
  induction hshares with
  | nil => rfl
  | @cons p x ps shares hshare _ ih =>
    obtain ⟨n, f, k, c, lane, v, y, hf, hl, hlane, rfl, hv, hy, rfl⟩ := hshare
    have hp := (hm.struct hd hb).placed f (List.mem_of_getElem? hf)
    obtain ⟨e, he, hpart⟩ := part_pieceExpr hs hp hf hl hlane hv hy maskUnsigned
    rw [List.filterMap_cons_some he, List.mapM_cons, hpart, ih]
    rfl

theorem pieceWrite?_scalar {p : Piece} (hp : ScalarPiece fields p) :
    pieceWrite? m fields p = none := by
  obtain ⟨n, f, k, c, lane, hf, hl, -, rfl⟩ := hp
  have hn : (leafPiece n f k lane).field = n := rfl
  cases ht : f.ty with
  | inline t => simp [ht, Ty.leaf?] at hl
  | _ => simp [pieceWrite?, hn, hf, ht]

theorem groupStmts_scalars {maskUnsigned : Bool} (hraw : g.needsRaw = true)
    (hps : ∀ p ∈ g.pieces, ScalarPiece fields p) {shares : List UInt32}
    (hparts : (g.pieces.filterMap (pieceExpr? maskUnsigned fields)).mapM (Expr.part fr) =
      some shares) (hlen : g.pieces.length = shares.length) :
    (g.pieces.filterMap (pieceExpr? maskUnsigned fields)).isEmpty = false ∧
      groupStmts m maskUnsigned fields g =
        [.store g.word (g.pieces.filterMap (pieceExpr? maskUnsigned fields))] := by
  have hsome : (g.pieces.filterMap (pieceExpr? maskUnsigned fields)).isEmpty = false := by
    rw [List.isEmpty_eq_false_iff]
    intro hnil
    rw [hnil] at hparts
    obtain rfl : shares = [] := (Option.some.inj hparts).symm
    simp [Group.needsRaw, List.eq_nil_of_length_eq_zero hlen] at hraw
  have hnone : g.pieces.filterMap (pieceWrite? m fields) = [] :=
    List.filterMap_eq_nil_iff.mpr fun p hp => pieceWrite?_scalar (hps p hp)
  exact ⟨hsome, by simp [groupStmts, hnone, hsome]⟩

theorem groupStmts_nested {maskUnsigned : Bool} {n : Nat} {f : Field} {t : Handle}
    (hf : fields[n]? = some f) (ht : f.ty = .inline t) (hp : g.pieces = [nestedPiece n f]) :
    groupStmts m maskUnsigned fields g = [.write (m.nameOf t) f.offset (.member f.name)] := by
  have hn : (nestedPiece n f).field = n := rfl
  simp [groupStmts, hp, pieceWrite?, pieceExpr?, hn, hf, ht]

variable {p : Program} {maskUnsigned : Bool} {offset : UInt32} (hoff : fr.offset = offset)
  (hv : WellTyped m (.inline h) (.struct h values))
include hm hd hb hs hoff hv

theorem run_groupStmts (hin : Inside words.size d.size offset)
    (hg : g ∈ resolve fields d.size .write)
    (hix : g.needsRaw = true → fr.ix = some (offset / 4))
    (hcall : ∀ (f : Field) (t : Handle) (inner : List Host.Value), f ∈ fields → f.ty = .inline t →
      WellTyped m (.inline t) (.struct t inner) →
        ∃ words', call (m.nameOf t ++ "_write") (m.nameOf t) (offset + f.offset)
            (some (widen m f.ty (.struct t inner))) words = some (words', none) ∧
          Stored m f.ty (offset.toNat + f.offset.toNat) (.struct t inner) words words') :
    ∃ words', Run (Next p call) (groupStmts m maskUnsigned fields g) (fr, words) (fr, words') ∧
      GroupStored m fields values offset.toNat g words words' := by
  rcases write_group_cases hm hd hb hg with ⟨hraw, hps⟩ | ⟨n, f, t, hf, ht, hp⟩ | hnil
  · obtain ⟨hj, hlt⟩ := groupWord_inside hm hd hb hin hg hraw
    obtain ⟨shares, hshares⟩ := exists_forall₂ g.pieces fun p hp =>
      exists_share hm hd hb hv maskUnsigned (hps p hp)
    have hparts := mapM_part hm hd hb hs hshares
    obtain ⟨hsome, hstmts⟩ := @groupStmts_scalars m fr fields g maskUnsigned hraw hps shares
      hparts hshares.length_eq
    refine ⟨_, ?_, groupStored_word hm hd hb hin.1 hg hraw hlt hshares⟩
    rw [hstmts]
    refine .cons ?_ (.nil _)
    simp only [Next, Stmt.exec, hsome, hparts, hix hraw, storeAt, hj, if_pos hlt,
      Option.bind_eq_bind, Option.bind_some, Bool.false_eq_true, if_false]
  · obtain ⟨inner, hvn, hwt⟩ := exists_nested hm hd hb hv hf ht
    obtain ⟨words', hwrite, hst⟩ := hcall f t inner (List.mem_of_getElem? hf) ht hwt
    refine ⟨words', ?_, .nested hf ht hvn hp hst⟩
    rw [groupStmts_nested hf ht hp]
    refine .cons ?_ (.nil _)
    have harg : (Argument.member f.name).eval fr = some (widen m f.ty (.struct t inner)) :=
      hs n f _ hf hvn
    simp only [Next, Stmt.exec, harg, hoff, hwrite, Option.bind_eq_bind, Option.bind_some]
  · refine ⟨words, ?_, .none hnil rfl⟩
    simpa [groupStmts, hnil] using .nil _

theorem run_writeBody (hfr : fr.ix = none) (hin : Inside words.size d.size offset)
    (hcall : ∀ (f : Field) (t : Handle) (inner : List Host.Value), f ∈ fields → f.ty = .inline t →
      WellTyped m (.inline t) (.struct t inner) → ∀ words', words'.size = words.size →
        ∃ words'', call (m.nameOf t ++ "_write") (m.nameOf t) (offset + f.offset)
            (some (widen m f.ty (.struct t inner))) words' = some (words'', none) ∧
          Stored m f.ty (offset.toNat + f.offset.toNat) (.struct t inner) words' words'') :
    ∃ words', execBody p call (writeBody m maskUnsigned d fields) fr words = some (words', none) ∧
      Stored m (.inline h) offset.toNat (.struct h values) words words' := by
  obtain ⟨ix, hbase, hix⟩ := run_baseStmts p call words (resolve fields d.size .write) hfr
  rw [hoff] at hix
  obtain ⟨words', hgroups, hstored⟩ := @run_flatMap p call Group
    (groupStmts m maskUnsigned fields) (GroupStored m fields values offset.toNat) { fr with ix }
    words.size (resolve fields d.size .write) (by
      intro g hg words' hsize
      rw [← hsize] at hin
      obtain ⟨words'', hrun, hst⟩ := @run_groupStmts m call { fr with ix } fields values words' g
        hm h d hd hb hs p maskUnsigned offset hoff hv hin hg (hix g hg)
        fun f t inner hf ht hwt => hcall f t inner hf ht hwt words' hsize
      exact ⟨words'', hrun, hst, hst.size_eq.trans hsize⟩) words rfl
  exact ⟨words', execBody_eq_some (hbase.append hgroups), stored_of_run hm hd hb hin.1 hstored⟩

end groups

section calls

variable {m : Module} {o : Options} (hm : m.WellFormed) (hp : (program m o).Unambiguous)
  (hwr : m.writable = true)
include hm hp hwr

theorem call_write {words : Array UInt32} (hw : words.size ≤ 2 ^ 30) {fs : List Function}
    (hfs : fs <+: (program m o).functions) {h : Handle} {d : TypeDef} {fields : List Field}
    (hd : m.def? h = some d) (hb : d.body = .struct fields)
    (hmem : writeFunction m o.maskUnsigned d fields ∈ fs) {offset : UInt32}
    (hin : Inside words.size d.size offset) {values : List Host.Value}
    (hv : WellTyped m (.inline h) (.struct h values)) :
    ∃ words', (program m o).call fs.reverse (d.name ++ "_write") d.name offset
        (some (widen m (.inline h) (.struct h values))) words = some (words', none) ∧
      Stored m (.inline h) offset.toNat (.struct h values) words words' := by
  -- nested writers belong to smaller handles and stand before this one
  induction hn : h.toNat using Nat.strong_induction_on
    generalizing words fs h d fields offset values with
  | _ n ih =>
    obtain ⟨earlier, hprefix, hearlier, hcalls⟩ :=
      call_accessor hp hd (writeFunction_mem hwr hb o.maskUnsigned)
    have hs := hm.struct hd hb
    rw [widen_struct _ hd hb]
    obtain ⟨words', hbody, hst⟩ := @run_writeBody m
      ((program m o).call earlier.reverse)
      { offset, s := some ⟨d.name, ((fields.zip values).map fun q =>
        (q.1.name, widen m q.1.ty q.2)).map fun q => (q.1, some q.2)⟩ }
      fields values words hm h d hd hb
      (membersGiven_of_zip hs.names (hv.members hd hb).1 rfl) (program m o) o.maskUnsigned offset
      rfl hv rfl hin (by
        intro f t inner hf ht hwt words' hsize
        rw [← hsize] at hw hin
        obtain ⟨e, efields, he, hbe, -, hlt, -⟩ := hm.inline_target hd hb hf ht
        obtain ⟨hine, hadd⟩ := Inside.nested hm hd hb hf ht he hw hin
        have hname := nameOf_eq he
        rw [hname, ht, ← hadd]
        exact ih t.toNat (by rw [← hn]; exact UInt32.lt_iff_toNat_lt.mp hlt) hw hprefix he hbe
          (hearlier t e hlt he _ (writeFunction_mem hwr hbe _)) hine hwt rfl)
    refine ⟨words', ?_, hst⟩
    refine (hcalls fs hfs hmem _ _ _ _).trans (Function.run_eq_some ?_ hbody rfl)
    exact if_pos rfl

theorem run_write {words : Array UInt32} (hw : words.size ≤ 2 ^ 30) {h : Handle} {d : TypeDef}
    {fields : List Field} (hd : m.def? h = some d) (hb : d.body = .struct fields)
    {offset : UInt32} (hin : Inside words.size d.size offset) {values : List Host.Value}
    (hv : WellTyped m (.inline h) (.struct h values)) :
    ∃ words', (program m o).run (d.name ++ "_write") d.name offset
        (some (widen m (.inline h) (.struct h values))) words = some (words', none) ∧
      Stored m (.inline h) offset.toNat (.struct h values) words words' :=
  call_write hm hp hwr hw List.prefix_rfl hd hb
    (mem_functions_of_accessor (m.mem_of_def? hd) (writeFunction_mem hwr hb _)) hin hv

section unions

variable {words : Array UInt32} {h : Handle} {d : TypeDef} {variants : List Variant}
  {offset tag : UInt32} {v : Variant} (hd : m.def? h = some d) (hb : d.body = .union variants)
  (hin : Inside words.size d.size offset) (hvt : variants[tag.toNat]? = some v)
include hd hb hin hvt

omit hwr in
theorem exec_storeTag (call : Call) (fr : Frame) (hoff : fr.offset = offset) :
    (Stmt.storeTag (tagName d v)).exec (program m o) call fr words =
      some (.next fr (words.set! (offset.toNat / 4) tag)) := by
  have hconst : (program m o).constant? (tagName d v) = some tag := by
    apply hp.constant?_eq
    apply mem_items_of_declaration (m.mem_of_def? hd)
    simp only [declarations, hb, List.mem_append, List.mem_map]
    refine .inl ⟨(v, tag.toNat), List.mk_mem_zipIdx_iff_getElem?.mpr hvt, ?_⟩
    rw [UInt32.ofNat_toNat]
  have hroom := (hm.union hd hb).room
  have hlt : (fr.offset >>> 2).toNat < words.size := by
    obtain ⟨-, hbound⟩ := hin
    rw [hoff, shiftRight_two, toNat_div_four]
    omega
  simp only [Stmt.exec, hconst, storeAt, if_pos hlt, Option.bind_eq_bind, Option.bind_some]
  rw [hoff, shiftRight_two, toNat_div_four]

theorem run_variantWrite_empty (hpay : v.payload = .empty) :
    (program m o).run (tagName d v ++ "_write") d.name offset none words =
      some (words.set! (offset.toNat / 4) tag, none) := by
  have hmem := @mem_accessors_of_variantWrite m d hwr variants hb v (List.mem_of_getElem? hvt)
    { name := tagName d v ++ "_write", owner := d.name, extra := .none, result := none
      body := [.storeTag (tagName d v)] } (by simp [variantWrite, hpay]) o.maskUnsigned
  obtain ⟨earlier, -, -, hrun⟩ := run_accessor hp hd hmem
  refine (hrun _ _ _ _).trans (Function.run_eq_some rfl ?_ rfl)
  simp only [execBody, exec_storeTag hm hp hd hb hin hvt _ { offset } rfl]

theorem run_variantWrite_struct (hw : words.size ≤ 2 ^ 30) {at_ : UInt32} {t : Handle}
    (hpay : v.payload = .struct at_ t) {values : List Host.Value}
    (hv : WellTyped m (.inline t) (.struct t values)) :
    ∃ words', (program m o).run (tagName d v ++ "_write") d.name offset
        (some (widen m (.inline t) (.struct t values))) words = some (words', none) ∧
      Stored m (.inline t) (offset.toNat + at_.toNat) (.struct t values)
        (words.set! (offset.toNat / 4) tag) words' := by
  have hps := (hm.union hd hb).payload v (List.mem_of_getElem? hvt) at_ t hpay
  have hset : (words.set! (offset.toNat / 4) tag).size = words.size := by simp
  rw [← hset] at hw
  have hin' : Inside (words.set! (offset.toNat / 4) tag).size d.size offset := by rwa [hset]
  obtain ⟨e, fields, he, hbe, hine, hadd⟩ := PayloadSound.target hm hps hw hin'
  have hname := nameOf_eq he
  have hmem := @mem_accessors_of_variantWrite m d hwr variants hb v (List.mem_of_getElem? hvt)
    { name := tagName d v ++ "_write", owner := d.name, extra := .struct e.name, result := none
      body := [.storeTag (tagName d v), .write e.name at_ .whole] }
    (by simp [variantWrite, hpay, hname]) o.maskUnsigned
  obtain ⟨earlier, hprefix, hearlier, hrun⟩ := run_accessor hp hd hmem
  obtain ⟨words', hcall, hst⟩ := call_write hm hp hwr hw hprefix he hbe
    (hearlier t e hps.earlier he _ (writeFunction_mem hwr hbe _)) hine hv
  rw [← hadd]
  refine ⟨words', ?_, hst⟩
  rw [widen_struct _ he hbe] at hcall ⊢
  refine (hrun _ _ _ _).trans (Function.run_eq_some (if_pos rfl) ?_ rfl)
  rw [execBody, exec_storeTag hm hp hd hb hin hvt]
  · simp only [execBody, Stmt.exec, Argument.eval, value?_of_assigned, hcall,
      Option.bind_eq_bind, Option.bind_some]
  · rfl

end unions

end calls

/-- The text of an output can be read if and only if no macro replaces a field. The writers that it
declares leave the buffer that the host leaves. -/
theorem writers_agree_with_host {m : Module} {l : Language} {o : Options} {out : Output}
    (he : emit m l o = .ok out) (hwr : m.writable = true) (hx : m.ExactEnds)
    {words : Array UInt32} (hw : words.size ≤ 2 ^ 30) :
    (FieldReplaced m l → out.ReadsAs l none) ∧
    (¬ FieldReplaced m l → ∃ file, out.ReadsAs l (some file) ∧
      file.names = out.program.items.flatMap (l.itemDeclares out.program.buffer) ∧
      (∀ (h : Handle) (d : TypeDef) (fields : List Field) (offset : UInt32)
          (values : List Host.Value),
        m.def? h = some d → d.body = .struct fields → Inside words.size d.size offset →
        WellTyped m (.inline h) (.struct h values) →
          ∃ words', Buffer.writeStruct ⟨m, words⟩ offset h values = .ok ⟨m, words'⟩ ∧
            file.run l (d.name ++ "_write")
              [.handle d.name offset, widen m (.inline h) (.struct h values)] words =
                some (words', none)) ∧
      (∀ (h : Handle) (d : TypeDef) (variants : List Variant) (offset tag : UInt32) (v : Variant),
        m.def? h = some d → d.body = .union variants → Inside words.size d.size offset →
        variants[tag.toNat]? = some v →
          (v.payload = .empty →
            ∃ words', Buffer.writeVariant ⟨m, words⟩ h tag offset none = .ok ⟨m, words'⟩ ∧
              file.run l (tagName d v ++ "_write") [.handle d.name offset] words =
                some (words', none)) ∧
          (∀ (at_ : UInt32) (t : Handle) (values : List Host.Value), v.payload = .struct at_ t →
            WellTyped m (.inline t) (.struct t values) →
              ∃ words', Buffer.writeVariant ⟨m, words⟩ h tag offset (some (t, values)) =
                  .ok ⟨m, words'⟩ ∧
                file.run l (tagName d v ++ "_write")
                  [.handle d.name offset, widen m (.inline t) (.struct t values)] words =
                    some (words', none)))) := by
  have hp := unambiguous_of_emit he
  have hm := wellFormed_of_validate (emit_eq_ok he).1 hx
  have hcall := Listing.follows_run (Listing.emittable_of_emit he)
  have hnames := names_file he
  rw [(emit_eq_ok he).2.2.1] at hp
  refine ⟨readsAs_none he, fun hclean => ⟨_, readsAs_file he hclean, hnames, ?_, ?_⟩⟩
  · intro h d fields offset values hd hb hin hv
    obtain ⟨words', hwrite, hst⟩ := @exists_writeStruct ⟨m, words⟩ hm hw h d fields offset values
      hd hb hin hv
    obtain ⟨words'', hrun, hst'⟩ := run_write hm hp hwr hw hd hb hin hv
    obtain rfl := hst.unique hst'
    exact ⟨words', hwrite, hcall _ _ _ (some _) _ _ hrun⟩
  · intro h d variants offset tag v hd hb hin hvt
    constructor
    · intro hpay
      obtain ⟨words', hwrite, hst⟩ := @exists_writeVariant ⟨m, words⟩ hm h d variants tag offset
        none none hd hb hin v hvt (hpay ▸ .empty) rfl nofun
      cases hst with
      | none hnew =>
        refine ⟨words', hwrite, ?_⟩
        rw [hnew]
        exact hcall _ _ _ none _ _ (run_variantWrite_empty hm hp hwr hd hb hin hvt hpay)
    · intro at_ t values hpay hv
      obtain ⟨words', hwrite, hst⟩ := @exists_writeVariant ⟨m, words⟩ hm h d variants tag offset
        (some (at_, t)) (some (t, values)) hd hb hin v hvt (hpay ▸ .struct at_ t) rfl (by
          rintro _ _ ⟨⟩
          exact hv)
      obtain ⟨words'', hrun, hst'⟩ := run_variantWrite_struct hm hp hwr hd hb hin hvt hw hpay hv
      cases hst with
      | struct _ hst =>
        obtain rfl := hst.unique hst'
        exact ⟨words', hwrite, hcall _ _ _ (some _) _ _ hrun⟩

theorem writers_agree_with_host_sample :
    sampleModule.writable = true ∧ sampleModule.ExactEnds ∧ ¬ FieldReplaced sampleModule .hlsl ∧
      ∃ out file, emit sampleModule .hlsl { maskUnsigned := true } = .ok out ∧
        Listing.readFile .hlsl "heap" out.text = some file ∧ file.Proper .hlsl ∧
        Buffer.writeStruct ⟨sampleModule, Array.replicate 8 0xFFFFFFFF⟩ 4 1 sampleFields =
          .ok ⟨sampleModule, sampleWords⟩ ∧
        file.run .hlsl "S_write"
          [.handle "S" 4, widen sampleModule (.inline 1) (.struct 1 sampleFields)]
          (Array.replicate 8 0xFFFFFFFF) = some (sampleWords, none) := by
  have hx : sampleModule.ExactEnds := by decide
  obtain ⟨out, hout⟩ := @emit_ok sampleModule .hlsl { maskUnsigned := true } sampleModule_accepted
    (by decide +kernel) rfl
  have hw : (Array.replicate 8 (0xFFFFFFFF : UInt32)).size ≤ 2 ^ 30 := by decide
  have hhost : Buffer.writeStruct ⟨sampleModule, Array.replicate 8 0xFFFFFFFF⟩ 4 1 sampleFields =
      .ok ⟨sampleModule, sampleWords⟩ := by cbv
  obtain ⟨-, -, -, -, -, hv, -⟩ :=
    writeStruct_stored (wellFormed_of_validate sampleModule_accepted hx) hw hhost
  have hclean := sampleModule_unreplaced .hlsl
  obtain ⟨file, hreads, hnames, hstructs, -⟩ := (writers_agree_with_host hout rfl hx hw).2 hclean
  obtain ⟨words', hwrite, hrun⟩ := hstructs 1 _ _ 4 _ rfl rfl ⟨rfl, by decide⟩ hv
  obtain rfl : words' = sampleWords := by simpa [hhost, eq_comm] using hwrite
  have htext := hreads.text (plain_items hout (by simp) (List.forall_mem_nil _))
  have hproper : file.Proper .hlsl := by
    rw [Listing.File.Proper, hnames, (emit_eq_ok hout).2.2.1]
    decide +kernel
  rw [(emit_eq_ok hout).2.2.1] at htext
  exact ⟨rfl, hx, hclean, out, file, hout, htext, hproper, hhost, hrun⟩

theorem replaced_writer_unread :
    ¬ ∀ (m : Module) (l : Language) (o : Options) (out : Output) (words : Array UInt32),
      emit m l o = .ok out → m.writable = true → m.ExactEnds → words.size ≤ 2 ^ 30 →
      ∀ (h : Handle) (d : TypeDef) (fields : List Field) (offset : UInt32)
        (values : List Host.Value),
        m.def? h = some d → d.body = .struct fields → Inside words.size d.size offset →
        WellTyped m (.inline h) (.struct h values) →
          ∃ file words', Listing.readFile l out.program.buffer out.text = some file ∧
            Buffer.writeStruct ⟨m, words⟩ offset h values = .ok ⟨m, words'⟩ ∧
            file.run l (d.name ++ "_write")
              [.handle d.name offset, widen m (.inline h) (.struct h values)] words =
                some (words', none) := by
  intro h
  let m : Module := { wordModule "A" "A_size" with writable := true }
  obtain ⟨out, hout⟩ : ∃ out, emit m .hlsl {} = .ok out :=
    emit_ok (by cbv) (by decide +kernel) rfl
  have hd : wordType "A" "A_size" ∈ m.defs := wordType_mem "A" "A_size"
  have hreplaced : FieldReplaced m .hlsl :=
    ⟨by decide, _, hd, _, hd, "A_size", List.mem_singleton_self _, hasField_word _ _⟩
  have hv : WellTyped m (.inline 0) (.struct 0 [.u32 7]) := by
    refine .struct rfl rfl rfl fun i f u hf hu => ?_
    cases i with
    | zero =>
      cases hf
      cases hu
      exact .scalar rfl
    | succ i => cases hf
  obtain ⟨file, -, hread, -⟩ := h m .hlsl _ out #[0] hout rfl (by decide) (by decide) 0 _ _ 0 _ rfl
    rfl ⟨rfl, by decide⟩ hv
  have hplain := plain_items hout (by simp) (List.forall_mem_nil _)
  have hnone := (readsAs_none hout hreplaced).text hplain
  rw [hnone] at hread
  cases hread

end WordLayout.Shader
