import Mathlib
import WordLayout.Proofs.Shader.Listing.Simulation

namespace WordLayout.Shader

namespace Listing

section calls

variable {m : Module} {l : Language} {o : Options} {d : TypeDef} {call : Call}
  {call' : Shader.Call} {words words' : Array UInt32}

theorem matches_enter (l : Language) (owner : String) (offset : UInt32) (index : Option UInt32)
    (s : Option (String × List (String × Value))) :
    Matches l owner
      { offset, index, s := s.map fun q => ⟨q.1, q.2.map fun p => (p.1, some p.2)⟩ }
      fun x => (((l.handleParam, Value.handle owner offset) ::
        ((index.map fun i => ("index", Value.uint i)).toList ++
          (s.map fun q => ("s", Value.struct q.1 q.2)).toList)).lookup x).map Variable.of := by
  have hne : ∀ {x y : String}, x ≠ y → (x == y) = false := beq_eq_false_iff_ne.mpr
  have hindex : ("index" == l.handleParam) = false := by cases l <;> rfl
  have hix : ("ix" == l.handleParam) = false := by cases l <;> rfl
  have hs : ("s" == l.handleParam) = false := by cases l <;> rfl
  refine ⟨?_, ?_, ?_, ?_, fun w => ?_, fun x hx => ?_⟩
  · rw [List.lookup_cons_self]
    rfl
  · rw [List.lookup_cons, hindex]
    cases index <;> cases s <;> rfl
  · rw [List.lookup_cons, hix]
    cases index <;> cases s <;> rfl
  · rw [List.lookup_cons, hs]
    cases index <;> cases s <;> rfl
  · rw [List.lookup_cons, hne (rawName_ne (not_raw_handleParam l))]
    have hindex : (rawName w == "index") = false := hne (rawName_ne (by decide))
    have hs : (rawName w == "s") = false := hne (rawName_ne (by decide))
    cases index <;> cases s <;> simp [List.lookup_cons, hindex, hs]
  · have hnot : ∀ y, l.Blocked y → (x == y) = false := fun y hy => hne fun heq => hx (heq ▸ hy)
    rw [List.lookup_cons, hnot _ l.blocked_handleParam]
    cases index <;> cases s <;>
      simp [List.lookup_cons, hnot _ l.blocked_index, hnot _ l.blocked_s]

variable (hm : Emittable m l o)
include hm

theorem exists_enter {f : Function} (hf : f.Fits m d) {offset : UInt32} {extra : Option Value}
    {fr : Frame} (h : f.enter offset extra = some fr) :
    ∃ env, (routine l (program m o) f).enter l (.handle f.owner offset :: extra.toList) = some env ∧
      Matches l f.owner fr env := by
  have hhandle : (typeNamed l (f.owner ++ "Ref")).admits (.handle f.owner offset) = true := by
    rw [(free_handle f.owner).2]
    exact beq_self_eq_true _
  rw [Function.enter.eq_def] at h
  split at h
  · rename_i hextra
    obtain rfl := Option.some.inj h
    refine ⟨_, ?_, matches_enter l f.owner offset none none⟩
    simp [Routine.enter, routine, Function.routine, Language.params, hextra, hhandle]
  · rename_i i hextra
    obtain rfl := Option.some.inj h
    have hadmits : (typeNamed l l.uintType).admits (.uint i) = true := by
      rw [typeNamed_uint]
      rfl
    refine ⟨_, ?_, matches_enter l f.owner offset (some i) none⟩
    simp [Routine.enter, routine, Function.routine, Language.params, hextra, hhandle, hadmits]
  · rename_i name type members hextra
    split at h
    · rename_i htype
      obtain rfl := Option.some.inj h
      have hadmits : (typeNamed l name).admits (.struct type members) = true := by
        rw [typeNamed_usable (usable_struct hm (hf.extra name hextra)), htype]
        exact beq_self_eq_true _
      refine ⟨_, ?_, matches_enter l f.owner offset none (some (type, members))⟩
      simp [Routine.enter, routine, Function.routine, Language.params, hextra, hhandle, hadmits]
    · cases h
  · cases h

theorem returns_eq {f : Function} (hf : f.Fits m d) (hd : d ∈ m.defs) {v : Option Value}
    (h : f.returns v = true) : (routine l (program m o) f).returns l v = true := by
  have htype : ∀ type, f.result = some type → l.typeName type ≠ "" ∧ type.Fits m := by
    intro type htype
    rcases hf.result type htype with rfl | rfl | ⟨name, rfl, hname⟩
    · exact ⟨not_handle_name (by decide) d.name, d, hd, rfl⟩
    · exact ⟨by cases l <;> decide, trivial⟩
    · refine ⟨?_, hname⟩
      rintro rfl
      exact (usable_struct hm hname).toList_ne_nil rfl
  cases hresult : f.result with
  | none =>
    cases v with
    | none => simp [Routine.returns, routine, Function.routine, Language.resultType, hresult]
    | some v => simp [Function.returns, hresult] at h
  | some type =>
    cases v with
    | none => simp [Function.returns, hresult] at h
    | some v =>
      obtain ⟨hne, hfits⟩ := htype type hresult
      simp only [Function.returns, hresult, Option.any_some] at h
      simp [Routine.returns, routine, Function.routine, Language.resultType, hresult, hne,
        admits_typeName hm hfits, h]

theorem run_routine {f : Function} (hd : d ∈ m.defs) (hf : f.Fits m d)
    (hfollows : Follows call call') (hmakes : Makes m l call) {owner : String} {offset : UInt32}
    {extra : Option Value} {out : Array UInt32 × Option Value}
    (h : f.run (program m o) call' owner offset extra words = some out) :
    (routine l (program m o) f).run l ((program m o).file l) call
      (.handle owner offset :: extra.toList) words = some out := by
  rw [Function.run] at h
  split at h
  · rename_i howner
    obtain ⟨fr, henter, h⟩ := Option.bind_eq_some_iff.mp h
    obtain ⟨⟨words', v⟩, hbody, h⟩ := Option.bind_eq_some_iff.mp h
    dsimp only at h
    split at h
    · rename_i hreturns
      obtain rfl := Option.some.inj h
      obtain ⟨env, henv, hmatches⟩ := exists_enter hm hf henter
      have hexec : execAll l ((program m o).file l) call (routine l (program m o) f).body env
          words = some (words', v) := exec_body hm hmatches hfollows hmakes hd hf.body hbody
      have hkeeps := returns_eq hm hf hd hreturns
      simp only [Routine.run, howner, henv, hexec, hkeeps, Option.bind_eq_bind, Option.bind_some,
        if_true]
    · cases h
  · cases h

end calls

section makers

variable {m : Module} {o : Options} (hm : Emittable m .hlsl o) {name : String}
  (hname : IsDef m name)
include hm hname

theorem run_maker (call : Call) (offset : UInt32) (words : Array UInt32) :
    (makerRoutine name).run .hlsl ((program m o).file .hlsl) call [.uint offset] words =
      some (words, some (.handle name offset)) := by
  have hlookup : ((program m o).file .hlsl).structs.lookup (name ++ "Ref") =
      some [("offset", "uint")] := handle_lookup hm hname
  let start : Env := fun x => ([("offset", Value.uint offset)].lookup x).map Variable.of
  let declared : Env :=
    Function.update start "r" (some (.record ⟨name ++ "Ref", [("offset", none)]⟩))
  have henter : (makerRoutine name).enter .hlsl [.uint offset] = some start := if_pos ⟨rfl, rfl⟩
  have hdeclare : (Statement.declare "r" (name ++ "Ref")).exec .hlsl ((program m o).file .hlsl) call
      start words = some (.next declared words) := by
    have hnone : start "r" = none := rfl
    simp [Statement.exec, hlookup, hnone, declared]
  have hassign : (Statement.assign (.member (.name "r") "offset") (.name "offset")).exec .hlsl
      ((program m o).file .hlsl) call declared words = some (.next (Function.update declared "r"
        (some (.record ⟨name ++ "Ref", [("offset", some (.uint offset))]⟩))) words) := by
    have hr : declared "r" = some (.record ⟨name ++ "Ref", [("offset", none)]⟩) :=
      Function.update_self _ _ _
    have hoffset : declared "offset" = some (.plain (.uint offset)) := rfl
    have hadmits : (typeNamed .hlsl "uint").admits (.uint offset) = true := rfl
    simp [Statement.exec, Term.eval, hr, hoffset, hlookup, Variable.value?, hadmits, Local.set]
  have hresult : name ++ "Ref" ≠ "" := not_handle_name (by decide) name
  have hreturns : (makerRoutine name).returns .hlsl (some (.handle name offset)) = true := by
    have hadmits : (typeNamed .hlsl (name ++ "Ref")).admits (.handle name offset) = true := by
      rw [(free_handle name).2]
      exact beq_self_eq_true _
    simp [Routine.returns, makerRoutine, hresult, hadmits]
  have hbody : execAll .hlsl ((program m o).file .hlsl) call (makerRoutine name).body start words =
      some (words, some (.handle name offset)) := by
    rw [makerRoutine, execAll, hdeclare]
    dsimp only
    rw [execAll, hassign]
    simp [execAll, Statement.exec, Term.eval, Variable.value?, Local.value?, Value.handle]
  simp only [Routine.run, henter, hbody, hreturns, Option.bind_eq_bind, Option.bind_some, if_true]

theorem maker_ne {f : Function} (hf : f ∈ (program m o).functions) :
    f.name ≠ name ++ "Ref_new" := by
  obtain ⟨d, hd, rfl⟩ := hname
  obtain ⟨item, hi, hitem⟩ := List.mem_filterMap.mp hf
  intro heq
  have hmaker : d.name ++ "Ref_new" ∈ Language.hlsl.definitionNames (.handle d.name) := by
    simp [Language.definitionNames, Language.handleNames_eq, Language.extraNames]
  cases item with
  | function g =>
    obtain rfl := Option.some.inj hitem
    have hname : d.name ++ "Ref_new" ∈ Language.hlsl.definitionNames (.function g) := by
      rw [← heq]
      exact List.mem_singleton_self _
    cases eq_of_mem_definitionNames (nodup_definitionNames hm) hi (handle_mem_items hd) hname hmaker
  | _ => cases hitem

end makers

section programs

variable {m : Module} {l : Language} {o : Options} (hm : Emittable m l o)
include hm

omit hm in
theorem routines_file :
    ((program m o).file l).routines = (opening m o).flatMap (itemRoutines l (program m o)) ++
      (program m o).functions.map (routine l (program m o)) := by
  have hplain : ∀ items : List Item, (∀ item ∈ items, item.handle? = none) →
      items.flatMap (itemRoutines l (program m o)) =
        (items.filterMap Item.function?).map (routine l (program m o)) := by
    intro items
    induction items with
    | nil => exact fun _ => rfl
    | cons item items ih =>
      intro h
      rw [List.forall_mem_cons] at h
      rw [List.flatMap_cons, ih h.2]
      cases item with
      | handle name => cases h.1
      | _ => rfl
  have hopening : (opening m o).filterMap Item.function? = [] := by
    rw [List.filterMap_eq_nil_iff]
    intro item hi
    rcases opening_cases hi with ⟨text, rfl⟩ | rfl | ⟨b, rfl⟩ | ⟨d, -, rfl⟩
    · rfl
    · rfl
    · rfl
    · rfl
  have hrest := hplain
    (m.defs.flatMap (declarations m) ++ m.defs.flatMap (accessors m o.maskUnsigned))
    (by
      intro item hi
      rcases List.mem_append.mp hi with hi | hi
      · obtain ⟨d, -, hi⟩ := List.mem_flatMap.mp hi
        exact handle?_of_declaration hi
      · obtain ⟨d, -, hi⟩ := List.mem_flatMap.mp hi
        rcases function_or_omitted hi with ⟨f, rfl⟩ | ⟨name, reason, rfl⟩
        · rfl
        · rfl)
  have hfunctions : (program m o).functions =
      (m.defs.flatMap (declarations m) ++ m.defs.flatMap (accessors m o.maskUnsigned)).filterMap
        Item.function? := by
    rw [Program.functions, items_program, List.append_assoc, List.filterMap_append, hopening,
      List.nil_append]
  have hroutines : ((program m o).file l).routines =
      (program m o).items.flatMap (itemRoutines l (program m o)) := List.nil_append _
  rw [hroutines, items_program, List.append_assoc, List.flatMap_append, hrest, hfunctions]

omit hm in
theorem call_of_mem {file : File} {rs : List Routine} {r : Routine} {args : List Value}
    {words : Array UInt32} {out : Array UInt32 × Option Value} (hr : r ∈ rs)
    (honly : ∀ r' ∈ rs, r'.name = r.name → r' = r)
    (hrun : ∀ call, r.run l file call args words = some out) :
    file.call l rs r.name args words = some out := by
  induction rs with
  | nil => cases hr
  | cons r' rs ih =>
    rw [List.forall_mem_cons] at honly
    rw [File.call]
    split
    · rename_i hname
      rw [honly.1 hname]
      exact hrun _
    · rename_i hname
      rcases List.mem_cons.mp hr with rfl | hr
      · exact absurd rfl hname
      · exact ih hr honly.2

theorem call_makers {fs : List Function} (hfs : fs ⊆ (program m o).functions) :
    Makes m l (((program m o).file l).call l (fs.map (routine l (program m o)) ++
      ((opening m o).flatMap (itemRoutines l (program m o))).reverse)) := by
  rintro rfl name hname offset words
  refine call_of_mem (r := makerRoutine name) ?_ ?_ fun call =>
    run_maker hm hname call offset words
  · obtain ⟨d, hd, rfl⟩ := hname
    refine List.mem_append_right _ (List.mem_reverse.mpr (List.mem_flatMap.mpr ⟨.handle d.name, ?_,
      List.mem_singleton_self _⟩))
    exact mem_opening_iff.mpr (.inr (.inr ⟨d, hd, rfl⟩))
  · intro r hr heq
    rcases List.mem_append.mp hr with hr | hr
    · obtain ⟨f, hf, rfl⟩ := List.mem_map.mp hr
      exact absurd heq (maker_ne hm hname (hfs hf))
    · obtain ⟨item, hi, hr⟩ := List.mem_flatMap.mp (List.mem_reverse.mp hr)
      rcases opening_cases hi with ⟨text, rfl⟩ | rfl | ⟨b, rfl⟩ | ⟨d, -, rfl⟩
      · cases hr
      · cases hr
      · cases hr
      · obtain rfl := List.mem_singleton.mp hr
        have hsame : d.name = name := (String.append_left_inj "Ref_new").mp heq
        rw [hsame]

theorem call_routines {fs : List Function} (hfs : fs ⊆ (program m o).functions) :
    Follows (((program m o).file l).call l (fs.map (routine l (program m o)) ++
      ((opening m o).flatMap (itemRoutines l (program m o))).reverse)) ((program m o).call fs) := by
  induction fs with
  | nil =>
    intro name owner offset extra words out h
    cases h
  | cons f fs ih =>
    intro name owner offset extra words out h
    obtain ⟨hf, hrest⟩ := List.cons_subset.mp hfs
    rw [Program.call] at h
    rw [List.map_cons, List.cons_append, File.call]
    split at h
    · rename_i hname
      obtain ⟨item, hi, hitem⟩ := List.mem_filterMap.mp hf
      obtain ⟨d, hd, hfits⟩ : ∃ d ∈ m.defs, f.Fits m d := by
        cases item with
        | function g =>
          obtain rfl := Option.some.inj hitem
          exact exists_fits hm.valid hi
        | _ => cases hitem
      exact (if_pos hname).trans (run_routine hm hd hfits (ih hrest) (call_makers hm hrest) h)
    · rename_i hname
      exact (if_neg hname).trans (ih hrest _ _ _ _ _ _ h)

theorem follows_run : Follows (((program m o).file l).run l) (program m o).run := by
  have hcall := call_routines hm (l := l) (List.reverse_subset.mpr (List.Subset.refl
    (program m o).functions))
  rwa [List.map_reverse, ← List.reverse_append, ← routines_file] at hcall

end programs

end Listing

end WordLayout.Shader
