import Mathlib
import WordLayout.Proofs.Host.RoundTrip
import WordLayout.Proofs.Shader.Expressions
import WordLayout.Proofs.Shader.Listing.Calls
import WordLayout.Proofs.Shader.Listing.Texts
import WordLayout.Proofs.Shader.Widen

namespace WordLayout.Shader

open Word Coverage Host Validation

theorem set_next (type name : String) (v : Value) (done : List (String × Value))
    (todo : List String) (hdone : name ∉ done.map (·.1)) (htodo : name ∉ todo) :
    Local.set ⟨type, (done.map fun q => (q.1, some q.2)) ++ (name, none) :: todo.map (·, none)⟩
        name v =
      ⟨type, ((done ++ [(name, v)]).map fun q => (q.1, some q.2)) ++ todo.map (·, none)⟩ := by
  have hkeep : (done.map fun q => (q.1, some q.2)).map
      (fun p : String × Option Value => if p.1 = name then (p.1, some v) else p) =
      done.map fun q => (q.1, some q.2) := by
    rw [List.map_map]
    apply List.map_congr_left
    intro q hq
    apply if_neg
    rintro rfl
    exact hdone (List.mem_map_of_mem hq)
  have hrest : (todo.map (·, (none : Option Value))).map
      (fun p : String × Option Value => if p.1 = name then (p.1, some v) else p) =
      todo.map (·, none) := by
    rw [List.map_map]
    apply List.map_congr_left
    intro n hn
    apply if_neg
    rintro rfl
    exact htodo hn
  simp [Local.set, hkeep, hrest]

section loading

variable {p : Program} {call : Call} {words : Array UInt32}

theorem run_baseStmts (p : Program) (call : Call) (words : Array UInt32) (groups : List Group)
    {fr : Frame} (hfr : fr.ix = none) :
    ∃ ix, Run (Next p call) (baseStmts groups) (fr, words) ({ fr with ix }, words) ∧
      ∀ g ∈ groups, g.needsRaw = true → ix = some (fr.offset / 4) := by
  by_cases hany : groups.any Group.needsRaw = true
  · refine ⟨some (fr.offset / 4), ?_, fun _ _ _ => rfl⟩
    rw [baseStmts, if_pos hany]
    refine .cons ?_ (.nil _)
    simp [Next, Stmt.exec, shiftRight_two, hfr]
  · refine ⟨fr.ix, ?_, fun g hg hraw => ?_⟩
    · rw [baseStmts, if_neg hany]
      exact .nil _
    · exact absurd (List.any_eq_true.mpr ⟨g, hg, hraw⟩) hany

theorem run_loads {ix : UInt32} {fr : Frame} {ws : List UInt32} (hws : ws.Nodup)
    (hin : ∀ w ∈ ws, fr.ix = some ix ∧ (ix + w).toNat < words.size)
    (hnew : ∀ w ∈ ws, fr.raws.lookup w = none) :
    Run (Next p call) (ws.map .load) (fr, words)
      ({ fr with raws := (ws.reverse.map fun w => (w, words.getD (ix + w).toNat 0)) ++ fr.raws },
        words) := by
  induction ws generalizing fr with
  | nil => exact .nil _
  | cons w ws ih =>
    rw [List.forall_mem_cons] at hin hnew
    obtain ⟨⟨hix, hlt⟩, hin⟩ := hin
    obtain ⟨hw, hws⟩ := List.nodup_cons.mp hws
    have hload := getElem?_eq_getD hlt
    have hrest : ∀ x ∈ ws,
        ((w, words.getD (ix + w).toNat 0) :: fr.raws).lookup x = none := by
      intro x hx
      have hne : (x == w) = false := beq_eq_false_iff_ne.mpr fun h => hw (h ▸ hx)
      rw [List.lookup_cons, hne]
      exact hnew.2 x hx
    refine .cons (t := ({ fr with raws := (w, words.getD (ix + w).toNat 0) :: fr.raws }, words))
      ?_ ?_
    · simp only [Next, Stmt.exec, hix, Option.bind_eq_bind, Option.bind_some, hload, hnew.1,
        Option.isSome_none, Bool.false_eq_true, if_false]
    · have hrun := @ih { fr with raws := (w, words.getD (ix + w).toNat 0) :: fr.raws } hws hin hrest
      simpa only [List.reverse_cons, List.map_append, List.map_cons, List.map_nil,
        List.append_assoc, List.singleton_append] using hrun

def RawsLoaded (words : Array UInt32) (fr : Frame) (fields : List Field) : Prop :=
  ∀ f ∈ fields, ∀ k n lane, f.ty.leaf? = some (k, n) → lane < n →
    fr.raws.lookup ((f.offset + UInt32.ofNat lane * k.size) / 4) =
      some (words.getD (fr.offset.toNat / 4 + (f.offset.toNat + lane * k.size.toNat) / 4) 0)

variable {m : Module} (hm : m.WellFormed) {h : Handle} {d : TypeDef} {fields : List Field}
  (hd : m.def? h = some d) (hb : d.body = .struct fields) {offset : UInt32}
  (hin : Inside words.size d.size offset)
include hm hd hb hin

theorem run_prologue :
    ∃ fr, Run (Next p call)
        (baseStmts (resolve fields d.size .read) ++
          ((resolve fields d.size .read).filter Group.needsRaw).map fun g => .load g.word)
        ({ offset }, words) (fr, words) ∧
      fr.offset = offset ∧ fr.s = none ∧ RawsLoaded words fr fields := by
  have hs := hm.struct hd hb
  have ha := hm.aligned h d hd
  have hfr : ({ offset } : Frame).ix = none := rfl
  obtain ⟨ix, hbase, hix⟩ := run_baseStmts p call words (resolve fields d.size .read) hfr
  have hinside : ∀ w ∈ ((resolve fields d.size .read).filter Group.needsRaw).map (·.word),
      ix = some (offset / 4) ∧ (offset / 4 + w).toNat < words.size := by
    intro w hmem
    obtain ⟨g, hg, rfl⟩ := List.mem_map.mp hmem
    obtain ⟨hg, hraw⟩ := List.mem_filter.mp hg
    obtain ⟨hsum, hlt⟩ := groupWord_inside hm hd hb hin hg hraw
    exact ⟨hix g hg hraw, by omega⟩
  have hnodup : (((resolve fields d.size .read).filter Group.needsRaw).map (·.word)).Nodup :=
    List.pairwise_map.mpr ((resolve_word_ne fields d.size .read).filter _)
  have hloads := @run_loads p call words (offset / 4) { offset, ix } _ hnodup hinside
    fun _ _ => rfl
  rw [List.map_map] at hloads
  refine ⟨_, hbase.append hloads, rfl, rfl, ?_⟩
  intro f hf k n lane hl hlane
  obtain ⟨i, hi⟩ := List.getElem?_of_mem hf
  obtain ⟨g, hg, hraw, hgw⟩ := exists_needsRaw_of_leaf hs ha .read hi hl hlane
  have hg := List.mem_of_getElem? hg
  have hkey : (f.offset + UInt32.ofNat lane * k.size) / 4 = g.word := by
    rw [← UInt32.toNat_inj, toNat_div_four, (hs.placed f hf).laneOffset_toNat hl hlane, hgw]
  have hmem : g.word ∈
      (((resolve fields d.size .read).filter Group.needsRaw).map (·.word)).reverse :=
    List.mem_reverse.mpr (List.mem_map_of_mem (List.mem_filter.mpr ⟨hg, hraw⟩))
  rw [hkey, List.append_nil, List.lookup_graph _ hmem,
    (groupWord_inside hm hd hb hin hg hraw).1, hgw]

end loading

section sources

variable {m : Module} {words : Array UInt32} {call : Call} {fr : Frame} {fields : List Field}
  {f : Field} {size : UInt32} {k : ScalarKind} {n : Nat} {v : Host.Value}

theorem bits_plan_eq {off w x : UInt32} {u : Host.Value} (ha : off.toNat % k.size.toNat = 0)
    (hu : u.bits? k = some x)
    (hlow : ∀ i < 8 * k.size.toNat, bit w (8 * (off.toNat % 4) + i) = bit x i) :
    (Extract.plan off k).bits w = x := by
  have hpos := k.size_pos
  apply eq_of_bit
  intro i hi
  rw [Extract.bit_bits_plan ha w hi]
  split
  · rename_i hik
    exact hlow i hik
  · rename_i hik
    rw [Host.Value.bit_extended hu (Nat.le_of_not_lt hik) hi,
      show 8 * (off.toNat % 4) + 8 * k.size.toNat - 1 =
        8 * (off.toNat % 4) + (8 * k.size.toNat - 1) by omega, hlow _ (by omega)]

theorem eval_vector {type : TypeName} {lanes : List Expr} {vs : List Value} {u : Value}
    (hmap : lanes.mapM (Expr.eval fr) = some vs) (hu : type.construct vs = some u) :
    (Source.vector type lanes).eval call fr words = some (words, u) := by
  simp only [Source.eval, hmap, Option.bind_eq_bind, Option.bind_some, hu]

theorem construct_memberType {lanes : UInt8} {vs : List Host.Value} (hn : vs.length = lanes.toNat)
    (hkind : ∀ u ∈ vs, (widenScalar u).isKind k = true) :
    (memberType m (.vector k lanes)).construct (vs.map widenScalar) =
        some (widen m (.vector k lanes) (.vector vs)) ∧
      (memberType m (.vector k lanes)).admits (widen m (.vector k lanes) (.vector vs)) = true := by
  by_cases hone : lanes = 1
  · subst hone
    obtain ⟨u, rfl⟩ := List.length_eq_one_iff.mp hn
    have hu := hkind u List.mem_cons_self
    rw [memberType, if_pos rfl]
    exact ⟨if_pos hu, hu⟩
  · have hadmits : (TypeName.vector k lanes).admits (.vector (vs.map widenScalar)) = true := by
      simpa [TypeName.admits, hn] using hkind
    rw [memberType, if_neg hone, widen_vector hn hone]
    exact ⟨if_pos hadmits, hadmits⟩

variable (hp : f.Placed m size) (hf : f ∈ fields) (hl : f.ty.leaf? = some (k, n))
  (hr : RawsLoaded words fr fields) (ho : fr.offset.toNat % 4 = 0)
  (hv : Holds m (bitsOf words) f.ty (fr.offset.toNat + f.offset.toNat) v)
include hp hf hl hr ho hv

theorem eval_lane {lane : Nat} (hlane : lane < n) {x : UInt32} (hx : lane? f.ty v lane = some x) :
    (extractExpr (f.offset + UInt32.ofNat lane * k.size) k).eval fr = some (.ofKind k x) := by
  have hoff := hp.laneOffset_toNat hl hlane
  have ha := hp.laneOffset_aligned hl lane
  obtain ⟨u, hu⟩ := exists_scalar_of_lane hl hx
  obtain ⟨y, hy, hmem⟩ := (holds_leaf_iff hl (hp.lanes_pos hl)).mp hv lane hlane
  obtain rfl := Option.some.inj (hx.symm.trans hy)
  rw [eval_extractExpr (by rw [hoff]; exact ha) (hr f hf k n lane hl hlane),
    bits_plan_eq (by rw [hoff]; exact ha) hu]
  intro i hi
  rw [hoff, bit_word_eq words _ ha hi, ← hmem i hi]
  congr 2
  omega

theorem eval_fieldSource_leaf :
    (fieldSource m f).eval call fr words = some (words, widen m f.ty v) ∧
      (memberType m f.ty).admits (widen m f.ty v) = true := by
  have hlanes := (holds_leaf_iff hl (hp.lanes_pos hl)).mp hv
  have heval : ∀ lane < n, ∀ x, lane? f.ty v lane = some x →
      (extractExpr (f.offset + UInt32.ofNat lane * k.size) k).eval fr = some (.ofKind k x) :=
    fun lane hlane x hx => eval_lane hp hf hl hr ho hv hlane hx
  cases ht : f.ty with
  | scalar k' =>
    obtain ⟨rfl, rfl⟩ : k' = k ∧ 1 = n := by simpa [ht, Ty.leaf?] using hl
    obtain ⟨x, hx, -⟩ := hlanes 0 Nat.one_pos
    have h0 := heval 0 Nat.one_pos x hx
    rw [lane_zero] at h0
    rw [ht] at hx
    rw [widen_scalar m _ hx]
    simp [fieldSource, ht, Source.eval, h0, memberType, TypeName.admits, isKind_ofKind]
  | vector k' lanes =>
    obtain ⟨rfl, rfl⟩ : k' = k ∧ lanes.toNat = n := by simpa [ht, Ty.leaf?] using hl
    obtain ⟨hw, -⟩ := hv
    rw [ht] at hw
    cases hw with
    | @vector _ _ vs hlen _ =>
      have hscalar : ∀ lane (hlane : lane < vs.length),
          ∃ x, lane? f.ty (.vector vs) lane = some x ∧ widenScalar vs[lane] = .ofKind k' x := by
        intro lane hlane
        obtain ⟨x, hx, -⟩ := hlanes lane (by omega)
        refine ⟨x, hx, widenScalar_of_bits ?_⟩
        simpa [ht, lane?, hlen, List.getElem?_eq_getElem hlane] using hx
      have hmap : ((List.range lanes.toNat).map fun lane =>
          extractExpr (f.offset + UInt32.ofNat lane * k'.size) k').mapM (Expr.eval fr) =
          some (vs.map widenScalar) := by
        rw [mapM_eq_some_iff, List.forall₂_map_left_iff, List.forall₂_map_right_iff,
          List.forall₂_iff_get]
        refine ⟨by rw [List.length_range, hlen], fun lane h1 h2 => ?_⟩
        obtain ⟨x, hx, hwide⟩ := hscalar lane h2
        rw [List.get_eq_getElem, List.get_eq_getElem, List.getElem_range, hwide]
        exact heval lane (by omega) x hx
      have hkind : ∀ u ∈ vs, (widenScalar u).isKind k' = true := by
        intro u hu
        obtain ⟨lane, hlane, rfl⟩ := List.getElem_of_mem hu
        obtain ⟨x, -, hwide⟩ := hscalar lane hlane
        rw [hwide, isKind_ofKind]
      obtain ⟨hcons, hadmits⟩ := construct_memberType (m := m) hlen hkind
      refine ⟨?_, hadmits⟩
      rw [fieldSource, ht]
      exact eval_vector hmap hcons
  | ref t =>
    obtain ⟨rfl, rfl⟩ : .u32 = k ∧ 1 = n := by simpa [ht, Ty.leaf?] using hl
    obtain ⟨hw, -⟩ := hv
    rw [ht] at hw
    cases hw with
    | @ref _ r =>
      have h0 := heval 0 Nat.one_pos r (by rw [ht]; rfl)
      rw [lane_zero] at h0
      simp [fieldSource, ht, Source.eval, h0, memberType, TypeName.admits, widen, Value.ofKind,
        Value.handle, ScalarKind.isFloat, ScalarKind.isSigned]
  | inline t => simp [ht, Ty.leaf?] at hl
  | missing => simp [ht, Ty.leaf?] at hl

end sources

section bodies

variable {p : Program} {call : Call} {words : Array UInt32} {m : Module}

theorem run_assigns {type : String} {types : List (String × TypeName)}
    (htypes : p.members? type = some types) {fr : Frame} {done : List (String × Value)}
    {todo : List (Field × Host.Value)}
    (hnames : (done.map (·.1) ++ todo.map (·.1.name)).Nodup)
    (hlookup : ∀ q ∈ todo, types.lookup q.1.name = some (memberType m q.1.ty))
    (hsource : ∀ q ∈ todo, ∀ s,
      (fieldSource m q.1).eval call { fr with s } words = some (words, widen m q.1.ty q.2) ∧
        (memberType m q.1.ty).admits (widen m q.1.ty q.2) = true) :
    Run (Next p call) (todo.map fun q => .assign q.1.name (fieldSource m q.1))
      ({ fr with s := some ⟨type, (done.map fun q => (q.1, some q.2)) ++
        (todo.map (·.1.name)).map (·, none)⟩ }, words)
      ({ fr with s := some ⟨type, (done ++ todo.map fun q => (q.1.name, widen m q.1.ty q.2)).map
        fun q => (q.1, some q.2)⟩ }, words) := by
  induction todo generalizing done with
  | nil => simpa using .nil _
  | cons q todo ih =>
    rw [List.forall_mem_cons] at hlookup hsource
    have hset := set_next type q.1.name (widen m q.1.ty q.2) done (todo.map (·.1.name)) (by
      intro hmem
      exact (List.nodup_append.mp hnames).2.2 _ hmem _ List.mem_cons_self rfl)
      (List.nodup_cons.mp (List.nodup_append.mp hnames).2.1).1
    have hrest := @ih (done ++ [(q.1.name, widen m q.1.ty q.2)]) (by simpa using hnames) hlookup.2
      hsource.2
    rw [List.append_assoc, List.singleton_append] at hrest
    have heval := fun s => (hsource.1 s).1
    have hadmits := (hsource.1 none).2
    refine .cons ?_ hrest
    simp only [Next, Stmt.exec, Option.bind_eq_bind, Option.bind_some, htypes, hlookup.1, heval,
      hadmits, if_true, List.map_cons, hset]

variable {o : Options} (hm : m.WellFormed) (hp : (program m o).Unambiguous)
  {h : Handle} {d : TypeDef} {fields : List Field} (hd : m.def? h = some d)
  (hb : d.body = .struct fields)
include hm hp hd hb

omit hm in
theorem members?_program :
    (program m o).members? d.name = some (fields.map fun f => (f.name, memberType m f.ty)) := by
  apply hp.members?_eq
  apply mem_items_of_declaration (m.mem_of_def? hd)
  simp [declarations, hb]

theorem run_readFunction {offset : UInt32}
    (hin : Inside words.size d.size offset) {values : List Host.Value}
    (hv : Holds m (bitsOf words) (.inline h) offset.toNat (.struct h values))
    (hcall : ∀ f ∈ fields, ∀ t, f.ty = .inline t → ∀ v,
      Holds m (bitsOf words) f.ty (offset.toNat + f.offset.toNat) v →
        call (m.nameOf t ++ "_read") (m.nameOf t) (offset + f.offset) none words =
            some (words, some (widen m f.ty v)) ∧
          (memberType m f.ty).admits (widen m f.ty v) = true) :
    (readFunction m d fields).run (program m o) call d.name offset none words =
      some (words, some (widen m (.inline h) (.struct h values))) := by
  have hs := hm.struct hd hb
  have htypes := members?_program hp hd hb
  have hlen := (hv.1.members hd hb).1
  obtain ⟨fr, hpro, hoff, hnone, hraws⟩ :=
    @run_prologue (program m o) call words m hm h d fields hd hb offset hin
  -- every source gives the member that the buffer holds
  have hsource : ∀ q ∈ fields.zip values, ∀ s,
      (fieldSource m q.1).eval call { fr with s } words = some (words, widen m q.1.ty q.2) ∧
        (memberType m q.1.ty).admits (widen m q.1.ty q.2) = true := by
    rintro ⟨f, v⟩ hq s
    obtain ⟨i, hi⟩ := List.getElem?_of_mem hq
    obtain ⟨hfi, hvi⟩ := List.getElem?_zip_eq_some.mp hi
    have hf := List.mem_of_getElem? hfi
    have hfield := hv.field hd hb hfi hvi
    have hpl := hs.placed f hf
    rcases leaf_or_inline hpl with ⟨k, n, hl⟩ | ⟨t, ht⟩
    · rw [← hoff] at hfield
      exact eval_fieldSource_leaf hpl hf hl hraws (by rw [hoff]; exact hin.1) hfield
    · obtain ⟨hread, hadmits⟩ := hcall f hf t ht v hfield
      refine ⟨?_, hadmits⟩
      simp only [fieldSource, ht, Source.eval, hoff, ht ▸ hread, Option.bind_eq_bind,
        Option.bind_some]
  have hassign := @run_assigns (program m o) call words m d.name _ htypes fr []
    (fields.zip values) (by simpa [map_fst_zip hlen] using hs.names)
    (fun q hq => lookup_of_mem hs.names (List.of_mem_zip hq).1) hsource
  rw [map_fst_zip hlen fun f => Stmt.assign f.name (fieldSource m f), map_fst_zip hlen] at hassign
  have hdeclare : Run (Next (program m o) call) [.declare d.name] (fr, words)
      ({ fr with s := some ⟨d.name, (fields.map (·.name)).map (·, none)⟩ }, words) := by
    refine .cons ?_ (.nil _)
    simp [Next, Stmt.exec, htypes, hnone]
  have hbody : execBody (program m o) call (readBody m d fields) { offset } words =
      some (words, some (widen m (.inline h) (.struct h values))) := by
    refine (execBody_of_run ((hpro.append hdeclare).append hassign)).trans ?_
    rw [widen_struct _ hd hb]
    simp only [execBody, Stmt.exec, List.nil_append, value?_of_assigned, Option.bind_eq_bind,
      Option.bind_some]
  refine Function.run_eq_some rfl hbody ?_
  rw [widen_struct _ hd hb]
  exact beq_self_eq_true d.name

end bodies

section calls

variable {m : Module} {o : Options} (hm : m.WellFormed) (hp : (program m o).Unambiguous)
  {words : Array UInt32} (hw : words.size ≤ 2 ^ 30)
include hm hp hw

theorem call_read {fs : List Function} (hfs : fs <+: (program m o).functions) {h : Handle}
    {d : TypeDef} {fields : List Field} (hd : m.def? h = some d) (hb : d.body = .struct fields)
    (hmem : readFunction m d fields ∈ fs) {offset : UInt32}
    (hin : Inside words.size d.size offset) {v : Host.Value}
    (hv : Holds m (bitsOf words) (.inline h) offset.toNat v) :
    (program m o).call fs.reverse (d.name ++ "_read") d.name offset none words =
      some (words, some (widen m (.inline h) v)) := by
  -- nested readers belong to smaller handles and stand before this one
  induction hn : h.toNat using Nat.strong_induction_on generalizing fs h d fields offset v with
  | _ n ih =>
    obtain ⟨earlier, hprefix, hearlier, hcalls⟩ :=
      call_accessor hp hd (readFunction_mem hb o.maskUnsigned)
    obtain ⟨values, rfl, -, -⟩ := (wellTyped_struct_iff hd hb).mp hv.1
    refine (hcalls fs hfs hmem _ _ _ _).trans ?_
    refine run_readFunction hm hp hd hb hin hv ?_
    intro f hf t ht u hu
    obtain ⟨e, inner, he, hbe, -, hlt, -⟩ := hm.inline_target hd hb hf ht
    obtain ⟨hine, hadd⟩ := Inside.nested hm hd hb hf ht he hw hin
    have hname := nameOf_eq he
    rw [ht, ← hadd] at hu
    have hcall := ih t.toNat (by rw [← hn]; exact UInt32.lt_iff_toNat_lt.mp hlt) hprefix he
      hbe (hearlier t e hlt he _ (readFunction_mem hbe _)) hine hu rfl
    obtain ⟨values', rfl, -, -⟩ := (wellTyped_struct_iff he hbe).mp hu.1
    rw [hname, ht]
    refine ⟨hcall, ?_⟩
    rw [widen_struct _ he hbe]
    simp [memberType, hname, TypeName.admits]

theorem run_read {h : Handle} {d : TypeDef} {fields : List Field} (hd : m.def? h = some d)
    (hb : d.body = .struct fields) {offset : UInt32} (hin : Inside words.size d.size offset)
    {v : Host.Value} (hv : Holds m (bitsOf words) (.inline h) offset.toNat v) :
    (program m o).run (d.name ++ "_read") d.name offset none words =
      some (words, some (widen m (.inline h) v)) :=
  call_read hm hp hw List.prefix_rfl hd hb
    (mem_functions_of_accessor (m.mem_of_def? hd) (readFunction_mem hb _)) hin hv

section unions

variable {h : Handle} {d : TypeDef} {variants : List Variant} (hd : m.def? h = some d)
  (hb : d.body = .union variants) {offset : UInt32} (hin : Inside words.size d.size offset)
include hd hb hin

omit hw in
theorem run_tag :
    (program m o).run (d.name ++ "_tag") d.name offset none words =
      some (words, some (.uint (words.getD (offset.toNat / 4) 0))) := by
  obtain ⟨earlier, -, -, hrun⟩ := run_accessor hp hd (tagFunction_mem hb o.maskUnsigned)
  refine (hrun _ _ _ _).trans ?_
  have hroom := (hm.union hd hb).room
  have hlt : offset.toNat / 4 < words.size := by
    obtain ⟨-, hbound⟩ := hin
    omega
  have hword : words[(offset >>> 2).toNat]? = some (words.getD (offset.toNat / 4) 0) := by
    rw [shiftRight_two, toNat_div_four, getElem?_eq_getD hlt]
  refine Function.run_eq_some rfl ?_ rfl
  simp only [tagFunction, execBody, Stmt.exec, hword, Option.bind_eq_bind, Option.bind_some]

theorem run_variantRead {v : Variant} (hv : v ∈ variants) {at_ : UInt32} {t : Handle}
    (hpay : v.payload = .struct at_ t) {u : Host.Value}
    (hu : Holds m (bitsOf words) (.inline t) (offset.toNat + at_.toNat) u) :
    (program m o).run (tagName d v ++ "_read") d.name offset none words =
      some (words, some (widen m (.inline t) u)) := by
  have hps := (hm.union hd hb).payload v hv at_ t hpay
  obtain ⟨e, fields, he, hbe, hine, hadd⟩ := PayloadSound.target hm hps hw hin
  have hname := nameOf_eq he
  have hmem := @mem_accessors_of_variantRead m d variants hb v hv
    { name := tagName d v ++ "_read", owner := d.name, extra := .none
      result := some (.struct e.name), body := [.returnRead e.name at_] }
    (by simp [variantRead, hpay, hname]) o.maskUnsigned
  obtain ⟨earlier, hprefix, hearlier, hrun⟩ := run_accessor hp hd hmem
  refine (hrun _ _ _ _).trans ?_
  rw [← hadd] at hu
  have hcall := call_read hm hp hw hprefix he hbe
    (hearlier t e hps.earlier he _ (readFunction_mem hbe _)) hine hu
  obtain ⟨values, rfl, -, -⟩ := (wellTyped_struct_iff he hbe).mp hu.1
  refine Function.run_eq_some rfl ?_ ?_
  · simp only [execBody, Stmt.exec, hcall, Option.bind_eq_bind, Option.bind_some]
  · rw [widen_struct _ he hbe]
    exact beq_self_eq_true e.name

end unions

end calls

/-- The text of an output can be read if and only if no macro replaces a field. The readers that it
declares give what the host reads. -/
theorem readers_agree_with_host {m : Module} {l : Language} {o : Options} {out : Output}
    (he : emit m l o = .ok out) (hx : m.ExactEnds) {words : Array UInt32}
    (hw : words.size ≤ 2 ^ 30) :
    (FieldReplaced m l → out.ReadsAs l none) ∧
    (¬ FieldReplaced m l → ∃ file, out.ReadsAs l (some file) ∧
      file.names = out.program.items.flatMap (l.itemDeclares out.program.buffer) ∧
      (∀ (h : Handle) (d : TypeDef) (fields : List Field) (offset : UInt32),
        m.def? h = some d → d.body = .struct fields → Inside words.size d.size offset →
          ∃ values, Buffer.readStruct ⟨m, words⟩ h offset = .ok (.struct h values) ∧
            file.run l (d.name ++ "_read") [.handle d.name offset] words =
              some (words, some (widen m (.inline h) (.struct h values)))) ∧
      (∀ (h : Handle) (d : TypeDef) (variants : List Variant) (offset : UInt32),
        m.def? h = some d → d.body = .union variants → Inside words.size d.size offset →
          (∃ tag, Buffer.tag ⟨m, words⟩ h offset = .ok tag ∧
            file.run l (d.name ++ "_tag") [.handle d.name offset] words =
              some (words, some (.uint tag))) ∧
          ∀ (tag : UInt32) (v : Variant) (at_ : UInt32) (t : Handle),
            variants[tag.toNat]? = some v → v.payload = .struct at_ t →
              ∃ values, Buffer.readVariant ⟨m, words⟩ h tag offset = .ok (.struct t values) ∧
                file.run l (tagName d v ++ "_read") [.handle d.name offset] words =
                  some (words, some (widen m (.inline t) (.struct t values))))) := by
  have hp := unambiguous_of_emit he
  have hm := wellFormed_of_validate (emit_eq_ok he).1 hx
  have hrun := Listing.follows_run (Listing.emittable_of_emit he)
  have hnames := names_file he
  rw [(emit_eq_ok he).2.2.1] at hp
  refine ⟨readsAs_none he, fun hclean => ⟨_, readsAs_file he hclean, hnames, ?_, ?_⟩⟩
  · intro h d fields offset hd hb hin
    obtain ⟨values, hu⟩ := exists_holds hm (bitsOf words) hd hb offset.toNat
    exact ⟨values, readStruct_of_holds hm hw hd hb hin hu,
      hrun _ _ _ none _ _ (run_read hm hp hw hd hb hin hu)⟩
  · intro h d variants offset hd hb hin
    refine ⟨⟨_, tag_eq hm hd hb hin rfl, hrun _ _ _ none _ _ (run_tag hm hp hd hb hin)⟩, ?_⟩
    intro tag v at_ t hvt hpay
    have hmem := List.mem_of_getElem? hvt
    obtain ⟨e, inner, hde, hbe, -⟩ :=
      hm.struct_of_known ((hm.union hd hb).payload v hmem at_ t hpay).known
    obtain ⟨values, hu⟩ := exists_holds hm (bitsOf words) hde hbe (offset.toNat + at_.toNat)
    exact ⟨values, readVariant_of_holds hm hw hd hb hin hvt (hpay ▸ .struct at_ t) hu,
      hrun _ _ _ none _ _ (run_variantRead hm hp hw hd hb hin hmem hpay hu)⟩

theorem sampleModule_unreplaced (l : Language) : ¬ FieldReplaced sampleModule l := by
  apply not_fieldReplaced
  rintro d hd x ⟨fields, hb, f, hf, rfl⟩
  simp only [sampleModule, List.mem_cons, List.not_mem_nil, or_false] at hd
  rcases hd with rfl | rfl | rfl
  · cases hb
    revert f
    decide
  · cases hb
    revert f
    decide
  · cases hb

theorem readers_agree_with_host_sample :
    sampleModule.ExactEnds ∧ ¬ FieldReplaced sampleModule .glsl ∧
      ∃ out file, emit sampleModule .glsl {} = .ok out ∧
        Listing.readFile .glsl "heap" out.text = some file ∧ file.Proper .glsl ∧
        Buffer.readStruct ⟨sampleModule, sampleWords⟩ 1 4 = .ok (.struct 1 sampleFields) ∧
        file.run .glsl "S_read" [.handle "S" 4] sampleWords =
          some (sampleWords, some (.struct "S"
            [("v", .vector [.int 0xFFFFFFFF, .int 2, .int 0xFFFFFED4]),
              ("p", .struct "P" [("a", .int 0xFFFFFFFB), ("b", .uint 513), ("r", .handle "S" 40)]),
              ("f", .float 0x3FC00000)])) := by
  have hx : sampleModule.ExactEnds := by decide
  have hclean := sampleModule_unreplaced .glsl
  obtain ⟨out, hout⟩ := @emit_ok sampleModule .glsl {} sampleModule_accepted
    (by decide +kernel) rfl
  have hw : sampleWords.size ≤ 2 ^ 30 := by decide
  obtain ⟨file, hreads, hnames, hstructs, -⟩ := (readers_agree_with_host hout hx hw).2 hclean
  obtain ⟨values, hread, hrun⟩ := hstructs 1 _ _ 4 rfl rfl ⟨rfl, by decide⟩
  have hhost : Buffer.readStruct ⟨sampleModule, sampleWords⟩ 1 4 =
      .ok (.struct 1 sampleFields) := by cbv
  obtain rfl : values = sampleFields := by simpa [hhost, eq_comm] using hread
  have htext := hreads.text (plain_items hout (by simp) (List.forall_mem_nil _))
  have hproper : file.Proper .glsl := by
    rw [Listing.File.Proper, hnames, (emit_eq_ok hout).2.2.1]
    decide +kernel
  rw [(emit_eq_ok hout).2.2.1] at htext
  exact ⟨hx, hclean, out, file, hout, htext, hproper, hhost, hrun⟩

theorem replaced_reader_unread :
    ¬ ∀ (m : Module) (l : Language) (o : Options) (out : Output) (words : Array UInt32),
      emit m l o = .ok out → m.ExactEnds → words.size ≤ 2 ^ 30 →
      ∀ (h : Handle) (d : TypeDef) (fields : List Field) (offset : UInt32),
        m.def? h = some d → d.body = .struct fields → Inside words.size d.size offset →
          ∃ file values, Listing.readFile l out.program.buffer out.text = some file ∧
            Buffer.readStruct ⟨m, words⟩ h offset = .ok (.struct h values) ∧
            file.run l (d.name ++ "_read") [.handle d.name offset] words =
              some (words, some (widen m (.inline h) (.struct h values))) := by
  intro h
  obtain ⟨out, hout⟩ := emit_replaced
  obtain ⟨file, -, hread, -⟩ := h _ .glsl _ out #[7] hout (by decide) (by decide) 0 _ _ 0 rfl rfl
    ⟨rfl, by decide⟩
  have hd := wordType_mem "A" "A_size"
  have hreplaced : FieldReplaced (wordModule "A" "A_size") .glsl :=
    ⟨by decide, _, hd, _, hd, "A_size", List.mem_singleton_self _, hasField_word _ _⟩
  have hplain := plain_items hout (by simp) (List.forall_mem_nil _)
  have hnone := (readsAs_none hout hreplaced).text hplain
  rw [hnone] at hread
  cases hread

end WordLayout.Shader
