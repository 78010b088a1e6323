import Mathlib
import WordLayout.Shader.Emit
import WordLayout.Proofs.Shader.Execution
import WordLayout.Proofs.Validation.WellFormed

namespace WordLayout.Shader

def Item.declared? : Item → Option String
  | .handle name => some (name ++ "Ref")
  | .struct name _ => some name
  | .constant name _ => some name
  | .function f => some f.name
  | .comment _ | .blank | .buffer .. | .omitted .. => none

section table

theorem claim_eq_ok_iff {used used' : NameTable} {type name : String} {origin : Origin} :
    used.claim type name origin = .ok used' ↔
      used.previous? name = none ∧ used' = (name, origin) :: used := by
  unfold NameTable.claim
  cases used.previous? name with
  | none => simp [eq_comm]
  | some previous => simp

theorem previous?_eq_none_iff {used : NameTable} {name : String} :
    used.previous? name = none ↔ name ∉ used.map (·.1) ∧ isRawName name = false := by
  have hlookup : used.lookup name = none ↔ name ∉ used.map (·.1) := by
    simp only [List.lookup_eq_none_iff, List.mem_map, not_exists, not_and, bne_iff_ne, ne_eq]
    exact ⟨fun h p hp heq => h p hp heq.symm, fun h p hp heq => h p hp heq.symm⟩
  unfold NameTable.previous?
  rw [← hlookup]
  cases used.lookup name with
  | some origin => simp
  | none => simp

theorem names_of_foldlM_claim {type : String} {origin : Origin} {names : List String}
    {used used' : NameTable}
    (h : names.foldlM (fun used name => used.claim type name origin) used = .ok used')
    (hused : (used.map (·.1)).Nodup) :
    used'.map (·.1) = names.reverse ++ used.map (·.1) ∧ (used'.map (·.1)).Nodup ∧
      ∀ x ∈ names, isRawName x = false := by
  induction names generalizing used with
  | nil =>
    obtain rfl := Except.ok.inj h
    exact ⟨rfl, hused, by simp⟩
  | cons name names ih =>
    obtain ⟨next, hclaim, hrest⟩ := foldlM_eq_ok_cons.mp h
    obtain ⟨hnone, rfl⟩ := claim_eq_ok_iff.mp hclaim
    obtain ⟨hnew, hraw⟩ := previous?_eq_none_iff.mp hnone
    have hnodup : (((name, origin) :: used).map (·.1)).Nodup := List.nodup_cons.mpr ⟨hnew, hused⟩
    obtain ⟨heq, hall, hraws⟩ := ih hrest hnodup
    refine ⟨?_, hall, List.forall_mem_cons.mpr ⟨hraw, hraws⟩⟩
    simp [heq]

theorem names_of_foldlM_claimDef {l : Language} {defs : List TypeDef} {used used' : NameTable}
    (h : defs.foldlM (claimDef l) used = .ok used') (hused : (used.map (·.1)).Nodup) :
    used'.map (·.1) = (defs.flatMap (declaredNames l)).reverse ++ used.map (·.1) ∧
      (used'.map (·.1)).Nodup ∧
      ∀ d ∈ defs, checkGivenNames l d = .ok () ∧ ∀ x ∈ declaredNames l d, isRawName x = false := by
  induction defs generalizing used with
  | nil =>
    obtain rfl := Except.ok.inj h
    exact ⟨rfl, hused, by simp⟩
  | cons d defs ih =>
    obtain ⟨next, hclaim, hrest⟩ := foldlM_eq_ok_cons.mp h
    obtain ⟨⟨⟩, hgiven, hnames⟩ := bind_eq_ok_iff.mp hclaim
    obtain ⟨heq, hnodup, hraw⟩ := names_of_foldlM_claim hnames hused
    obtain ⟨heq', hall, hdefs⟩ := ih hrest hnodup
    refine ⟨?_, hall, List.forall_mem_cons.mpr ⟨⟨hgiven, hraw⟩, hdefs⟩⟩
    simp [heq', heq]

structure NamesAccepted (m : Module) (l : Language) (buffer : String) : Prop where
  distinct : (m.defs.flatMap (declaredNames l) ++
    buffer :: (NameTable.locals l).map (·.1)).Nodup
  buffer_checked : checkName l .buffer buffer "" "" = .ok ()
  buffer_not_raw : isRawName buffer = false
  checked : ∀ d ∈ m.defs, checkGivenNames l d = .ok ()
  not_raw : ∀ d ∈ m.defs, ∀ x ∈ declaredNames l d, isRawName x = false

theorem accepted_of_claimNames {m : Module} {l : Language} {buffer : String} {used : NameTable}
    (h : claimNames m l buffer = .ok used) : NamesAccepted m l buffer := by
  have hlocals : ((NameTable.locals l).map (·.1)).Nodup := by cases l <;> decide
  unfold claimNames at h
  split at h
  · cases h
  · obtain ⟨⟨⟩, hbuffer, h⟩ := bind_eq_ok_iff.mp h
    obtain ⟨start, hclaim, hrest⟩ := bind_eq_ok_iff.mp h
    obtain ⟨hnone, rfl⟩ := claim_eq_ok_iff.mp hclaim
    obtain ⟨hnew, hraw⟩ := previous?_eq_none_iff.mp hnone
    have hstart : (((buffer, Origin.buffer) :: NameTable.locals l).map (·.1)).Nodup :=
      List.nodup_cons.mpr ⟨hnew, hlocals⟩
    obtain ⟨heq, hall, hdefs⟩ := names_of_foldlM_claimDef hrest hstart
    rw [heq] at hall
    exact {
      distinct := ((List.reverse_perm _).append_right _).nodup_iff.mp hall
      buffer_checked := hbuffer
      buffer_not_raw := hraw
      checked := fun d hd => (hdefs d hd).1
      not_raw := fun d hd => (hdefs d hd).2 }

end table

section declarations

variable (m : Module) (l : Language) (d : TypeDef) (x : String)

def itemNames (m : Module) (maskUnsigned : Bool) (d : TypeDef) : List String :=
  (Item.handle d.name :: declarations m d ++ accessors m maskUnsigned d).filterMap Item.declared?

theorem count_variantNames_le (variants : List Variant) :
    (variants.map (tagName d)).count x +
        ((variants.flatMap (variantRead m d)).filterMap Item.declared?).count x +
        ((variants.flatMap (variantWrite m d)).filterMap Item.declared?).count x ≤
      (variants.flatMap fun v =>
        [d.name ++ "_" ++ v.name, d.name ++ "_" ++ v.name ++ "_read",
          d.name ++ "_" ++ v.name ++ "_write"]).count x := by
  induction variants with
  | nil => simp
  | cons v variants ih =>
    have hread : ((variantRead m d v).filterMap Item.declared?).count x ≤
        [tagName d v ++ "_read"].count x := by
      unfold variantRead
      cases v.payload <;> simp [Item.declared?, List.filterMap_cons]
    have hwrite : ((variantWrite m d v).filterMap Item.declared?).count x ≤
        [tagName d v ++ "_write"].count x := by
      unfold variantWrite
      cases v.payload <;> simp [Item.declared?, List.filterMap_cons]
    have htag : tagName d v = d.name ++ "_" ++ v.name := rfl
    rw [htag] at hread hwrite
    simp only [List.map_cons, htag, List.flatMap_cons, List.filterMap_append, List.count_append,
      List.count_cons, List.count_nil] at *
    omega

theorem count_itemNames_le (maskUnsigned : Bool) :
    (itemNames m maskUnsigned d).count x + (l.extraNames d.name).count x ≤
      (declaredNames l d).count x := by
  have hconst : ∀ (variants : List Variant) (n : Nat),
      ((variants.zipIdx n).map fun p =>
        Item.constant (tagName d p.1) (UInt32.ofNat p.2)).filterMap Item.declared? =
        variants.map (tagName d) := by
    intro variants
    induction variants with
    | nil => simp
    | cons v variants ih => simp [List.zipIdx_cons, Item.declared?, ih]
  unfold itemNames declarations accessors declaredNames
  cases hb : d.body with
  | struct fields =>
    by_cases hw : m.writable = true <;>
      simp [hw, Item.declared?, List.filterMap_cons, indexFunction, readFunction,
        writeFunction, List.count_cons] <;>
      omega
  | union variants =>
    have hle := count_variantNames_le m d x variants
    by_cases hw : m.writable = true <;>
      simp [hw, Item.declared?, List.filterMap_cons, indexFunction, tagFunction,
        hconst, List.count_cons, List.filterMap_append] at * <;>
      omega
  | missing =>
    simp [Item.declared?, List.filterMap_cons, indexFunction, List.count_cons]
    omega

theorem count_defs_le (maskUnsigned : Bool) (defs : List TypeDef) :
    ((defs.map fun d => Item.handle d.name).filterMap Item.declared?).count x +
        ((defs.flatMap (declarations m)).filterMap Item.declared?).count x +
        ((defs.flatMap (accessors m maskUnsigned)).filterMap Item.declared?).count x +
        (defs.flatMap fun d => l.extraNames d.name).count x ≤
      (defs.flatMap (declaredNames l)).count x := by
  induction defs with
  | nil => simp
  | cons d defs ih =>
    have hle := count_itemNames_le m l d x maskUnsigned
    simp only [itemNames, List.filterMap_append, List.filterMap_cons, Item.declared?,
      List.count_append, List.count_cons, List.map_cons, List.flatMap_cons] at hle ih ⊢
    omega

end declarations

section programs

variable {m : Module} {l : Language} {o : Options} {out : Output}

theorem emit_eq_ok (h : emit m l o = .ok out) :
    m.validate = [] ∧ (∃ used, claimNames m l (bufferName m o) = .ok used) ∧
      out.program = program m o ∧ out.text = (program m o).render l := by
  unfold emit at h
  split at h
  · rename_i hv
    obtain ⟨used, hused, h⟩ := bind_eq_ok_iff.mp h
    obtain ⟨skipped, -, h⟩ := bind_eq_ok_iff.mp h
    obtain rfl := Except.ok.inj h
    exact ⟨hv, ⟨used, hused⟩, rfl, rfl⟩
  · cases h

theorem emit_ok (hv : m.validate = [])
    (hn : (claimNames m l (bufferName m o)).toOption.isSome = true)
    (hs : (skip m o).toOption.isSome = true) : ∃ out, emit m l o = .ok out := by
  cases hused : claimNames m l (bufferName m o) with
  | error e => simp [hused, Except.toOption] at hn
  | ok used =>
    cases hskip : skip m o with
    | error e => simp [hskip, Except.toOption] at hs
    | ok skipped =>
      unfold emit
      rw [hv]
      simp only [hused, hskip, ok_bind, pure_eq_ok, Except.ok.injEq, exists_eq']

def Program.Unambiguous (p : Program) : Prop := (p.items.filterMap Item.declared?).Nodup

theorem count_program_le (m : Module) (l : Language) (o : Options) (x : String) :
    ((program m o).items.filterMap Item.declared?).count x +
        (m.defs.flatMap fun d => l.extraNames d.name).count x ≤
      (m.defs.flatMap (declaredNames l)).count x := by
  have hle := count_defs_le m l x o.maskUnsigned m.defs
  have hheader : (headerItems o.header).filterMap Item.declared? = [] := by
    simp [headerItems, List.filterMap_append, Item.declared?, Function.comp_def]
  cases hb : o.binding <;>
    simp only [program, hb, List.filterMap_append, List.filterMap_cons, List.filterMap_nil,
      Item.declared?, List.count_append, hheader, List.count_nil] <;>
    omega

theorem unambiguous_of_emit (h : emit m l o = .ok out) : out.program.Unambiguous := by
  obtain ⟨-, ⟨used, hused⟩, hp, -⟩ := emit_eq_ok h
  rw [hp, Program.Unambiguous, List.nodup_iff_count_le_one]
  intro x
  have hdistinct := (List.nodup_append.mp (accepted_of_claimNames hused).distinct).1
  have hone := List.nodup_iff_count_le_one.mp hdistinct x
  have hle := count_program_le m l o x
  omega

end programs

namespace Program.Unambiguous

variable {p : Program} (hp : p.Unambiguous)
include hp

theorem item_eq {a b : Item} (ha : a ∈ p.items) (hb : b ∈ p.items) {name : String}
    (hna : a.declared? = some name) (hnb : b.declared? = some name) : a = b := by
  by_contra hne
  have hpair := List.pairwise_filterMap.mp hp
  have hsymm : Std.Symm fun a b : Item => ∀ x ∈ a.declared?, ∀ y ∈ b.declared?, x ≠ y :=
    ⟨fun a b h x hx y hy heq => h y hy x hx heq.symm⟩
  exact hpair.forall ha hb hne name hna name hnb rfl

theorem function_names : (p.functions.map (·.name)).Nodup := by
  rw [Program.functions, List.Nodup, List.pairwise_map, List.pairwise_filterMap]
  refine (List.pairwise_filterMap.mp hp).imp fun {a b} h f hf g hg => ?_
  cases a <;> cases hf
  cases b <;> cases hg
  exact h _ rfl _ rfl

theorem findSome?_eq {β : Type} {find : Item → Option β} {a : Item} {name : String} {v : β}
    (ha : a ∈ p.items) (hname : a.declared? = some name) (hv : find a = some v)
    (honly : ∀ b w, find b = some w → b.declared? = some name) :
    p.items.findSome? find = some v := by
  cases hfind : p.items.findSome? find with
  | none =>
    rw [List.findSome?_eq_none_iff.mp hfind a ha] at hv
    cases hv
  | some w =>
    obtain ⟨b, hb, hw⟩ := List.exists_of_findSome?_eq_some hfind
    obtain rfl := hp.item_eq ha hb hname (honly b w hw)
    rw [← hv, hw]

theorem members?_eq {name : String} {members : List (String × TypeName)}
    (h : .struct name members ∈ p.items) : p.members? name = some members := by
  refine hp.findSome?_eq h rfl (if_pos rfl) fun b w hw => ?_
  cases b with
  | struct n ms =>
    by_cases hn : n = name
    · rw [hn]
      rfl
    · simp [hn] at hw
  | _ => cases hw

theorem constant?_eq {name : String} {value : UInt32} (h : .constant name value ∈ p.items) :
    p.constant? name = some value := by
  refine hp.findSome?_eq h rfl (if_pos rfl) fun b w hw => ?_
  cases b with
  | constant n v =>
    by_cases hn : n = name
    · rw [hn]
      rfl
    · simp [hn] at hw
  | _ => cases hw

theorem call_eq {fs earlier later : List Function} {f : Function} (hfs : fs <+: p.functions)
    (hf : f ∈ fs) (hsplit : p.functions = earlier ++ f :: later) (owner : String)
    (offset : UInt32) (extra : Option Value) (words : Array UInt32) :
    p.call fs.reverse f.name owner offset extra words =
      f.run p (p.call earlier.reverse) owner offset extra words := by
  obtain ⟨rest, hrest⟩ := hfs
  obtain ⟨before, after, rfl⟩ := List.append_of_mem hf
  have hnodup := List.Nodup.of_map _ hp.function_names
  rw [hsplit] at hnodup
  obtain ⟨-, hcons, hne⟩ := List.nodup_append.mp hnodup
  have hearlier : f ∉ earlier := fun hmem => hne f hmem f List.mem_cons_self rfl
  have heq : earlier ++ f :: later = before ++ f :: (after ++ rest) := by
    rw [← hsplit, ← hrest, List.append_assoc, List.cons_append]
  obtain ⟨rfl, -, -⟩ :=
    (List.append_cons_inj_of_notMem hearlier (List.nodup_cons.mp hcons).1).mp heq
  have hnames := hp.function_names
  rw [← hrest, List.map_append] at hnames
  exact Program.call_eq rfl (List.nodup_append.mp hnames).1 owner offset extra words

end Program.Unambiguous

section order

variable {m : Module} {o : Options} {h : Handle} {d : TypeDef}

def accessorFunctions (m : Module) (maskUnsigned : Bool) (d : TypeDef) : List Function :=
  (accessors m maskUnsigned d).filterMap Item.function?

theorem functions_program : (program m o).functions =
    m.defs.map indexFunction ++ m.defs.flatMap (accessorFunctions m o.maskUnsigned) := by
  have hindex : ∀ defs : List TypeDef, (defs.flatMap (declarations m)).filterMap Item.function? =
      defs.map indexFunction := by
    intro defs
    induction defs with
    | nil => rfl
    | cons d defs ih =>
      rw [List.flatMap_cons, List.filterMap_append, ih]
      cases hb : d.body <;> simp [declarations, hb, Item.function?, List.filterMap_cons]
  have hhandles : (m.defs.map fun d => Item.handle d.name).filterMap Item.function? = [] := by
    simp [Item.function?, Function.comp_def]
  have hheader : (headerItems o.header).filterMap Item.function? = [] := by
    simp [headerItems, List.filterMap_append, Item.function?, Function.comp_def]
  have hacc : (m.defs.flatMap (accessors m o.maskUnsigned)).filterMap Item.function? =
      m.defs.flatMap (accessorFunctions m o.maskUnsigned) := by
    rw [List.filterMap_flatMap]
    rfl
  cases hb : o.binding <;>
    simp only [Program.functions, program, hb, List.filterMap_append, List.filterMap_cons,
      List.filterMap_nil, Item.function?, hheader, hhandles, hindex, hacc, List.nil_append]

theorem mem_functions_of_accessor {f : Function} (hd : d ∈ m.defs)
    (hf : f ∈ accessorFunctions m o.maskUnsigned d) : f ∈ (program m o).functions := by
  rw [functions_program, List.mem_append, List.mem_flatMap]
  exact .inr ⟨d, hd, hf⟩

theorem readFunction_mem {fields : List Field} (hb : d.body = .struct fields)
    (maskUnsigned : Bool) : readFunction m d fields ∈ accessorFunctions m maskUnsigned d := by
  simp [accessorFunctions, accessors, hb, Item.function?]

theorem writeFunction_mem (hwr : m.writable = true) {fields : List Field}
    (hb : d.body = .struct fields) (maskUnsigned : Bool) :
    writeFunction m maskUnsigned d fields ∈ accessorFunctions m maskUnsigned d := by
  simp [accessorFunctions, accessors, hb, hwr, Item.function?]

theorem tagFunction_mem {variants : List Variant} (hb : d.body = .union variants)
    (maskUnsigned : Bool) : tagFunction d ∈ accessorFunctions m maskUnsigned d := by
  simp [accessorFunctions, accessors, hb, Item.function?]

theorem mem_accessors_of_variantRead {variants : List Variant} (hb : d.body = .union variants)
    {v : Variant} (hv : v ∈ variants) {f : Function} (hf : .function f ∈ variantRead m d v)
    (maskUnsigned : Bool) : f ∈ accessorFunctions m maskUnsigned d := by
  have hmem : Item.function f ∈ accessors m maskUnsigned d := by
    simp only [accessors, hb, List.cons_append, List.mem_cons, List.mem_append, List.mem_flatMap]
    exact .inr (.inl ⟨v, hv, hf⟩)
  exact List.mem_filterMap.mpr ⟨_, hmem, rfl⟩

theorem mem_accessors_of_variantWrite (hwr : m.writable = true) {variants : List Variant}
    (hb : d.body = .union variants) {v : Variant} (hv : v ∈ variants) {f : Function}
    (hf : .function f ∈ variantWrite m d v) (maskUnsigned : Bool) :
    f ∈ accessorFunctions m maskUnsigned d := by
  have hmem : Item.function f ∈ accessors m maskUnsigned d := by
    simp only [accessors, hb, hwr, if_true, List.cons_append, List.mem_cons, List.mem_append,
      List.mem_flatMap]
    exact .inr (.inr ⟨v, hv, hf⟩)
  exact List.mem_filterMap.mpr ⟨_, hmem, rfl⟩

theorem mem_items_of_declaration {item : Item} (hd : d ∈ m.defs) (hi : item ∈ declarations m d) :
    item ∈ (program m o).items := by
  simp only [program, List.mem_append, List.mem_flatMap]
  exact .inl (.inr ⟨d, hd, hi⟩)

theorem functions_split (hd : m.def? h = some d) {f : Function}
    (hf : f ∈ accessorFunctions m o.maskUnsigned d) :
    ∃ earlier later, (program m o).functions = earlier ++ f :: later ∧
      ∀ t e, t < h → m.def? t = some e → ∀ g ∈ accessorFunctions m o.maskUnsigned e,
        g ∈ earlier := by
  obtain ⟨before, after, hacc⟩ := List.append_of_mem hf
  obtain ⟨hlt, hget⟩ := List.getElem?_eq_some_iff.mp hd
  have hdefs : m.defs = m.defs.take h.toNat ++ d :: m.defs.drop (h.toNat + 1) := by
    rw [← hget, List.cons_getElem_drop_succ, List.take_append_drop]
  refine ⟨m.defs.map indexFunction ++
    (m.defs.take h.toNat).flatMap (accessorFunctions m o.maskUnsigned) ++ before,
    after ++ (m.defs.drop (h.toNat + 1)).flatMap (accessorFunctions m o.maskUnsigned), ?_, ?_⟩
  · have hflat : m.defs.flatMap (accessorFunctions m o.maskUnsigned) =
        (m.defs.take h.toNat).flatMap (accessorFunctions m o.maskUnsigned) ++
          (accessorFunctions m o.maskUnsigned d ++
            (m.defs.drop (h.toNat + 1)).flatMap (accessorFunctions m o.maskUnsigned)) := by
      rw [← List.flatMap_cons, ← List.flatMap_append, ← hdefs]
    rw [functions_program, hflat, hacc]
    simp only [List.append_assoc, List.cons_append]
  · intro t e hth he g hg
    have hmem : e ∈ m.defs.take h.toNat := by
      obtain ⟨ht, rfl⟩ := List.getElem?_eq_some_iff.mp he
      rw [List.mem_take_iff_getElem]
      have := UInt32.lt_iff_toNat_lt.mp hth
      exact ⟨t.toNat, by omega, rfl⟩
    simp only [List.mem_append, List.mem_flatMap]
    exact .inl (.inr ⟨e, hmem, hg⟩)

theorem call_accessor (hp : (program m o).Unambiguous) (hd : m.def? h = some d) {f : Function}
    (hf : f ∈ accessorFunctions m o.maskUnsigned d) :
    ∃ earlier, earlier <+: (program m o).functions ∧
      (∀ t e, t < h → m.def? t = some e → ∀ g ∈ accessorFunctions m o.maskUnsigned e,
        g ∈ earlier) ∧
      ∀ fs, fs <+: (program m o).functions → f ∈ fs → ∀ owner offset extra words,
        (program m o).call fs.reverse f.name owner offset extra words =
          f.run (program m o) ((program m o).call earlier.reverse) owner offset extra words := by
  obtain ⟨earlier, later, hsplit, hearlier⟩ := functions_split hd hf
  exact ⟨earlier, ⟨_, hsplit.symm⟩, hearlier,
    fun fs hfs hmem => hp.call_eq hfs hmem hsplit⟩

theorem run_accessor (hp : (program m o).Unambiguous) (hd : m.def? h = some d) {f : Function}
    (hf : f ∈ accessorFunctions m o.maskUnsigned d) :
    ∃ earlier, earlier <+: (program m o).functions ∧
      (∀ t e, t < h → m.def? t = some e → ∀ g ∈ accessorFunctions m o.maskUnsigned e,
        g ∈ earlier) ∧
      ∀ owner offset extra words,
        (program m o).run f.name owner offset extra words =
          f.run (program m o) ((program m o).call earlier.reverse) owner offset extra words := by
  obtain ⟨earlier, hprefix, hearlier, hcall⟩ := call_accessor hp hd hf
  exact ⟨earlier, hprefix, hearlier,
    hcall _ List.prefix_rfl (mem_functions_of_accessor (m.mem_of_def? hd) hf)⟩

end order

end WordLayout.Shader
