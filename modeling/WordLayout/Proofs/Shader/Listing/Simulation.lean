import Mathlib
import WordLayout.Proofs.Shader.Listing.Programs
import WordLayout.Proofs.Shader.Listing.Run

namespace WordLayout.Shader

namespace Listing

structure Matches (l : Language) (owner : String) (fr : Frame) (env : Env) : Prop where
  handle : env l.handleParam = some (.record ⟨owner ++ "Ref", [("offset", some (.uint fr.offset))]⟩)
  index : env "index" = fr.index.map fun i => .plain (.uint i)
  ix : env "ix" = fr.ix.map fun i => .plain (.uint i)
  s : env "s" = fr.s.map .record
  raw : ∀ w, env (rawName w) = (fr.raws.lookup w).map fun x => .plain (.uint x)
  other : ∀ x, ¬ l.Blocked x → env x = none

inductive SameOutcome (l : Language) (owner : String) : Shader.Outcome → Outcome → Prop
  | next {fr : Frame} {env : Env} {words : Array UInt32} (h : Matches l owner fr env) :
    SameOutcome l owner (.next fr words) (.next env words)
  | returned {v : Value} {words : Array UInt32} :
    SameOutcome l owner (.returned v words) (.returned v words)

def Follows (call : Call) (call' : Shader.Call) : Prop :=
  ∀ name owner offset extra words out, call' name owner offset extra words = some out →
    call name (.handle owner offset :: extra.toList) words = some out

def Makes (m : Module) (l : Language) (call : Call) : Prop :=
  l = .hlsl → ∀ name, IsDef m name → ∀ offset words,
    call (name ++ "Ref_new") [.uint offset] words = some (words, some (.handle name offset))

section locals

variable {l : Language} {owner : String} {fr : Frame} {env : Env}

theorem Matches.update_ix (h : Matches l owner fr env) (i : UInt32) :
    Matches l owner { fr with ix := some i }
      (Function.update env "ix" (some (.plain (.uint i)))) where
  handle := by
    rw [Function.update_of_ne (by cases l <;> decide)]
    exact h.handle
  index := by
    rw [Function.update_of_ne (by decide)]
    exact h.index
  ix := Function.update_self _ _ _
  s := by
    rw [Function.update_of_ne (by decide)]
    exact h.s
  raw w := by
    rw [Function.update_of_ne (rawName_ne (by decide))]
    exact h.raw w
  other x hx := by
    rw [Function.update_of_ne]
    · exact h.other x hx
    · rintro rfl
      exact hx l.blocked_ix

theorem Matches.update_s (h : Matches l owner fr env) (s : Local) :
    Matches l owner { fr with s := some s } (Function.update env "s" (some (.record s))) where
  handle := by
    rw [Function.update_of_ne (by cases l <;> decide)]
    exact h.handle
  index := by
    rw [Function.update_of_ne (by decide)]
    exact h.index
  ix := by
    rw [Function.update_of_ne (by decide)]
    exact h.ix
  s := Function.update_self _ _ _
  raw w := by
    rw [Function.update_of_ne (rawName_ne (by decide))]
    exact h.raw w
  other x hx := by
    rw [Function.update_of_ne]
    · exact h.other x hx
    · rintro rfl
      exact hx l.blocked_s

theorem Matches.update_raw (h : Matches l owner fr env) (w x : UInt32) :
    Matches l owner { fr with raws := (w, x) :: fr.raws }
      (Function.update env (rawName w) (some (.plain (.uint x)))) where
  handle := by
    rw [Function.update_of_ne (rawName_ne (not_raw_handleParam l)).symm]
    exact h.handle
  index := by
    rw [Function.update_of_ne (rawName_ne (by decide)).symm]
    exact h.index
  ix := by
    rw [Function.update_of_ne (rawName_ne (by decide)).symm]
    exact h.ix
  s := by
    rw [Function.update_of_ne (rawName_ne (by decide)).symm]
    exact h.s
  raw w' := by
    by_cases hw : w' = w
    · rw [hw, Function.update_self, List.lookup_cons_self]
      rfl
    · rw [Function.update_of_ne (rawName_injective.ne hw), List.lookup_cons,
        beq_eq_false_iff_ne.mpr hw]
      exact h.raw w'
  other y hy := by
    rw [Function.update_of_ne]
    · exact h.other y hy
    · rintro rfl
      exact hy (l.blocked_raw w)

end locals

section types

variable {l : Language} {x : String}

def Free (l : Language) (x : String) : Prop :=
  (casts l).lookup x = none ∧ typeNamed l x = .struct x

theorem builtin_names (l : Language) :
    ∀ w ∈ (casts l).map (·.1) ++ (builtinTypes l).map (·.1),
      '_' ∉ w.toList ∧ w.toList.getLast? ≠ some 'f' := by
  cases l <;> decide +kernel

theorem free_of_notMem (h : x ∉ (casts l).map (·.1) ++ (builtinTypes l).map (·.1)) : Free l x := by
  rw [List.mem_append, not_or] at h
  refine ⟨lookup_eq_none_iff_notMem.mpr h.1, ?_⟩
  rw [typeNamed, lookup_eq_none_iff_notMem.mpr h.2, Option.getD_none]

theorem free_underscore (h : '_' ∈ x.toList) : Free l x :=
  free_of_notMem fun hx => (builtin_names l x hx).1 h

theorem free_handle (name : String) : Free l (name ++ "Ref") :=
  free_of_notMem fun hx => (builtin_names l _ hx).2 (by simp)

theorem builtin_reserved (l : Language) :
    ∀ w ∈ (builtinTypes l).map (·.1), Text.isIdentifier w = true → l.isReserved w = true := by
  cases l <;> decide +kernel

theorem typeNamed_usable (h : l.Usable x) : typeNamed l x = .struct x := by
  have hnot : x ∉ (builtinTypes l).map (·.1) := by
    intro hmem
    have hkept := builtin_reserved l x hmem h.1
    rw [h.2] at hkept
    cases hkept
  rw [typeNamed, lookup_eq_none_iff_notMem.mpr hnot, Option.getD_none]

theorem isKind_wide (k : ScalarKind) (v : Value) : v.isKind (wide k) = v.isKind k := by
  cases k <;> cases v <;> rfl

theorem typeNamed_scalar (l : Language) (k : ScalarKind) :
    typeNamed l (l.scalarType k) = .scalar (wide k) := by
  rw [← scalarType_wide]
  rcases wide_cases k with h | h | h <;> rw [h] <;> cases l <;> rfl

theorem typeNamed_uint (l : Language) : typeNamed l l.uintType = .scalar .u32 :=
  typeNamed_scalar l .u32

theorem builtin_vector (l : Language) (k : ScalarKind) {lanes : UInt8}
    (h : lanes = 2 ∨ lanes = 3 ∨ lanes = 4) :
    (casts l).lookup (l.vectorType k lanes) = none ∧
      typeNamed l (l.vectorType k lanes) = .vector (wide k) lanes := by
  rw [← vectorType_wide]
  rcases wide_cases k with hk | hk | hk <;> rw [hk] <;> rcases h with rfl | rfl | rfl <;>
    cases l <;> exact ⟨rfl, rfl⟩

theorem cast_scalar (l : Language) (k : ScalarKind) :
    ∃ cast, (casts l).lookup (l.scalarType k) = some cast ∧
      ∀ v : Value, v.isKind k = true → cast v = some v := by
  have hwide : ∃ cast, (casts l).lookup (l.scalarType (wide k)) = some cast ∧
      ∀ v : Value, v.isKind (wide k) = true → cast v = some v := by
    rcases wide_cases k with h | h | h <;> rw [h]
    · refine ⟨toFloat, by cases l <;> rfl, fun v hv => ?_⟩
      cases v <;> first | rfl | cases hv
    · refine ⟨toInt, by cases l <;> rfl, fun v hv => ?_⟩
      cases v <;> first | rfl | cases hv
    · refine ⟨toUint, by cases l <;> rfl, fun v hv => ?_⟩
      cases v <;> first | rfl | cases hv
  obtain ⟨cast, hcast, hkeep⟩ := hwide
  rw [scalarType_wide] at hcast
  exact ⟨cast, hcast, fun v hv => hkeep v ((isKind_wide k v).trans hv)⟩

theorem admits_wide (k : ScalarKind) (lanes : UInt8) (v : Value) :
    (TypeName.vector (wide k) lanes).admits v = (TypeName.vector k lanes).admits v := by
  have hkind : Value.isKind (wide k) = Value.isKind k := funext (isKind_wide k)
  cases v <;> simp only [TypeName.admits, hkind]

end types

section applications

theorem construct_scalar {k : ScalarKind} {vs : List Value} {v : Value}
    (h : (TypeName.scalar k).construct vs = some v) : vs = [v] ∧ v.isKind k = true := by
  match vs, h with
  | [u], h =>
    rw [TypeName.construct] at h
    split at h
    · rename_i hu
      obtain rfl := Option.some.inj h
      exact ⟨rfl, hu⟩
    · cases h

variable {l : Language} {file : File} {call : Call} {f : String} {args : List Value} {v : Value}
  {words words' : Array UInt32}

theorem apply_cast {cast : Value → Option Value} {u : Value}
    (hcast : (casts l).lookup f = some cast) (hu : cast u = some v) :
    applyTo l file call f [u] words = some (words, v) := by
  rw [applyTo.eq_def, hcast]
  simp only [hu, Option.map_some]

theorem apply_call (hf : Free l f) (hfile : l ≠ .hlsl → file.structs.lookup f = none)
    (hcall : call f args words = some (words', some v)) :
    applyTo l file call f args words = some (words', v) := by
  have hnone : (if l = .hlsl then none else file.structs.lookup f) = none := by
    split
    · rfl
    · rename_i hl
      exact hfile hl
  rw [applyTo.eq_def, hf.1, hf.2]
  simp only [hnone, hcall]

theorem apply_struct (hl : l ≠ .hlsl) (hf : Free l f) {members : List (String × String)}
    (hfile : file.structs.lookup f = some members) (hv : construct l f members args = some v) :
    applyTo l file call f args words = some (words, v) := by
  rw [applyTo.eq_def, hf.1, hf.2]
  simp only [if_neg hl, hfile, hv, Option.map_some]

theorem apply_vector {k : ScalarKind} {lanes : UInt8} (h : lanes = 2 ∨ lanes = 3 ∨ lanes = 4)
    (hv : (TypeName.vector k lanes).construct args = some v) :
    applyTo l file call (l.vectorType k lanes) args words = some (words, v) := by
  obtain ⟨hcast, htype⟩ := builtin_vector l k h
  have hwide : (TypeName.vector (wide k) lanes).construct args = some v := by
    rw [← hv]
    simp only [TypeName.construct, admits_wide]
  rw [applyTo.eq_def, hcast, htype]
  simp only [hwide, Option.map_some]

end applications

section terms

variable {l : Language} {file : File} {call : Call} {env : Env}
  {words words' words'' : Array UInt32}
  {t : Term} {ts : List Term} {v : Value} {vs : List Value}

theorem evalAll_cons (h : t.eval l file call env words = some (words', v))
    (hs : evalAll l file call env ts words' = some (words'', vs)) :
    evalAll l file call env (t :: ts) words = some (words'', v :: vs) := by
  simp only [evalAll, h, hs, Option.bind_eq_bind, Option.bind_some]

theorem evalAll_one (h : t.eval l file call env words = some (words', v)) :
    evalAll l file call env [t] words = some (words', [v]) :=
  evalAll_cons h rfl

theorem eval_apply {f : String} (h : evalAll l file call env ts words = some (words', vs)) :
    (Term.apply f ts).eval l file call env words = applyTo l file call f vs words' := by
  simp only [Term.eval, h, Option.bind_eq_bind, Option.bind_some]

theorem eval_binary {op : Operator} {u : Term} {x y : Value}
    (ht : t.eval l file call env words = some (words', x))
    (hu : u.eval l file call env words' = some (words'', y)) (h : op.eval x y = some v) :
    (Term.binary op t u).eval l file call env words = some (words'', v) := by
  simp only [Term.eval, ht, hu, h, Option.bind_eq_bind, Option.bind_some, Option.map_some]

theorem eval_cast {f : String} {cast : Value → Option Value} {u : Value}
    (hcast : (casts l).lookup f = some cast) (hu : cast u = some v)
    (h : t.eval l file call env words = some (words', u)) :
    (Term.apply f [t]).eval l file call env words = some (words', v) := by
  rw [eval_apply (evalAll_one h), apply_cast hcast hu]

end terms

section expressions

variable {l : Language} {file : File} {call : Call} {owner : String} {fr : Frame} {env : Env}
  (henv : Matches l owner fr env)
include henv

theorem eval_term {e : Expr} {v : Value} (h : e.eval fr = some v) (words : Array UInt32) :
    (term l e).eval l file call env words = some (words, v) := by
  induction e generalizing v with
  | raw w =>
    obtain ⟨x, hx, rfl⟩ := Option.map_eq_some_iff.mp h
    simp [term, Term.eval, henv.raw, hx, Variable.value?]
  | member name lane =>
    cases lane with
    | none =>
      obtain ⟨s, hs, hget⟩ := Option.bind_eq_some_iff.mp h
      simp [term, Term.eval, henv.s, hs, Variable.member?, hget]
    | some n =>
      obtain ⟨s, hs, h⟩ := Option.bind_eq_some_iff.mp h
      obtain ⟨u, hget, hlane⟩ := Option.bind_eq_some_iff.mp h
      simp [term, Term.eval, henv.s, hs, Variable.member?, hget, hlane]
  | offset name =>
    obtain ⟨s, hs, h⟩ := Option.bind_eq_some_iff.mp h
    obtain ⟨u, hget, hoffset⟩ := Option.bind_eq_some_iff.mp h
    simp [term, Term.eval, henv.s, hs, Variable.member?, hget, hoffset]
  | mask x bits ih =>
    obtain ⟨u, hu, h⟩ := Option.bind_eq_some_iff.mp h
    split at h
    · obtain rfl := Option.some.inj h
      simp [term, Term.eval, ih hu, Operator.eval]
    · cases h
  | shiftLeft x n ih =>
    obtain ⟨u, hu, h⟩ := Option.bind_eq_some_iff.mp h
    split at h
    · rename_i hcond
      obtain rfl := Option.some.inj h
      simp only [Bool.and_eq_true, decide_eq_true_eq] at hcond
      simp [term, Term.eval, ih hu, Operator.eval, hcond.2]
    · cases h
  | shiftRight x n ih =>
    obtain ⟨u, hu, h⟩ := Option.bind_eq_some_iff.mp h
    split at h
    · rename_i hcond
      obtain rfl := Option.some.inj h
      simp only [Bool.and_eq_true, decide_eq_true_eq] at hcond
      simp [term, Term.eval, ih hu, Operator.eval, hcond.2]
    · rename_i hcond
      obtain rfl := Option.some.inj h
      simp only [Bool.and_eq_true, decide_eq_true_eq] at hcond
      simp [term, Term.eval, ih hu, Operator.eval, hcond.2]
    · cases h
  | group x ih => exact ih h
  | floatFromBits x ih =>
    obtain ⟨u, hu, h⟩ := Option.bind_eq_some_iff.mp h
    have hcast : (casts l).lookup (floatFromBitsName l) = some floatOfBits := by cases l <;> rfl
    split at h
    · obtain rfl := Option.some.inj h
      exact eval_cast hcast rfl (ih hu)
    · cases h
  | floatToBits x ih =>
    obtain ⟨u, hu, h⟩ := Option.bind_eq_some_iff.mp h
    have hcast : (casts l).lookup (floatToBitsName l) = some bitsOfFloat := by cases l <;> rfl
    split at h
    · obtain rfl := Option.some.inj h
      exact eval_cast hcast rfl (ih hu)
    · cases h
  | intFromBits x ih =>
    obtain ⟨u, hu, h⟩ := Option.bind_eq_some_iff.mp h
    have hcast : (casts l).lookup (l.scalarType .i32) = some toInt := by cases l <;> rfl
    split at h
    · obtain rfl := Option.some.inj h
      exact eval_cast hcast rfl (ih hu)
    · cases h
  | intToBits x ih =>
    obtain ⟨u, hu, h⟩ := Option.bind_eq_some_iff.mp h
    have hcast : (casts l).lookup (l.scalarType .u32) = some toUint := by cases l <;> rfl
    split at h
    · obtain rfl := Option.some.inj h
      exact eval_cast hcast rfl (ih hu)
    · cases h

theorem eval_terms {es : List Expr} {vs : List Value} (h : es.mapM (Expr.eval fr) = some vs)
    (words : Array UInt32) :
    evalAll l file call env (es.map (term l)) words = some (words, vs) := by
  rw [mapM_eq_some_iff] at h
  induction h with
  | nil => rfl
  | cons he _ ih => exact evalAll_cons (eval_term henv he words) ih

theorem eval_handle_offset (words : Array UInt32) :
    (Term.member (.name l.handleParam) "offset").eval l file call env words =
      some (words, .uint fr.offset) := by
  simp [Term.eval, henv.handle, Variable.member?, Local.get?]

theorem eval_distance (distance : UInt32) (words : Array UInt32) :
    (distanceTerm l distance).eval l file call env words =
      some (words, .uint (fr.offset + distance)) := by
  have hoffset := @eval_handle_offset l file call owner fr env henv words
  unfold distanceTerm
  split
  · rename_i hzero
    rw [hoffset, hzero, UInt32.add_zero]
  · exact eval_binary hoffset rfl rfl

theorem eval_first (words : Array UInt32) :
    (firstTerm l).eval l file call env words = some (words, .uint (fr.offset >>> 2)) :=
  eval_binary (eval_handle_offset henv words) rfl rfl

end expressions

section declared

variable {l : Language} {x : String}

theorem mem_of_members? {p : Program} {members : List (String × TypeName)}
    (h : p.members? x = some members) : .struct x members ∈ p.items := by
  obtain ⟨item, hi, hitem⟩ := List.exists_of_findSome?_eq_some h
  cases item with
  | struct n ms =>
    by_cases hn : n = x
    · obtain rfl : ms = members := by simpa [hn] using hitem
      exact hn ▸ hi
    · simp [hn] at hitem
  | _ => cases hitem

theorem mem_of_constant? {p : Program} {value : UInt32} (h : p.constant? x = some value) :
    .constant x value ∈ p.items := by
  obtain ⟨item, hi, hitem⟩ := List.exists_of_findSome?_eq_some h
  cases item with
  | constant n v =>
    by_cases hn : n = x
    · obtain rfl : v = value := by simpa [hn] using hitem
      exact hn ▸ hi
    · simp [hn] at hitem
  | _ => cases hitem

theorem itemStructs_sublist (item : Item) :
    ((itemStructs l item).map (·.1)).Sublist (l.definitionNames item) := by
  cases item with
  | handle name =>
    rw [Language.definitionNames, Language.handleNames_eq]
    exact (List.nil_sublist _).cons_cons _
  | struct name members => exact List.Sublist.refl _
  | _ => exact List.nil_sublist _

theorem structs_sublist (items : List Item) :
    ((items.flatMap (itemStructs l)).map (·.1)).Sublist (items.flatMap l.definitionNames) := by
  induction items with
  | nil => exact .slnil
  | cons item items ih =>
    rw [List.flatMap_cons, List.map_append, List.flatMap_cons]
    exact (itemStructs_sublist item).append ih

theorem mem_names_of_struct {item : Item} {members : List (String × String)}
    (h : (x, members) ∈ itemStructs l item) : x ∈ l.definitionNames item :=
  (itemStructs_sublist item).subset (List.mem_map_of_mem h)

variable {m : Module} {o : Options} (hm : Emittable m l o)
include hm

theorem nodup_definitionNames : ((program m o).items.flatMap l.definitionNames).Nodup :=
  (List.nodup_cons.mp (List.nodup_append.mp (nodup_names hm.names)).1).2

theorem struct_lookup {item : Item} (hi : item ∈ (program m o).items)
    {members : List (String × String)} (h : (x, members) ∈ itemStructs l item) :
    ((program m o).file l).structs.lookup x = some members := by
  have hnodup := (nodup_definitionNames hm).sublist (structs_sublist (l := l) _)
  have hlookup := @lookup_of_mem _ _ _ (·.1) (·.2) hnodup _ (List.mem_flatMap.mpr ⟨item, hi, h⟩)
  simpa [Program.file, fileAfter] using hlookup

theorem function_lookup {f : Function} (hi : .function f ∈ (program m o).items) :
    ((program m o).file l).structs.lookup f.name = none := by
  rw [lookup_eq_none_iff_notMem]
  intro hmem
  obtain ⟨⟨x, members⟩, hq, rfl⟩ := List.mem_map.mp hmem
  have hq : (f.name, members) ∈ (program m o).items.flatMap (itemStructs l) := by
    simpa [Program.file, fileAfter] using hq
  obtain ⟨item, hitem, hq⟩ := List.mem_flatMap.mp hq
  obtain rfl := eq_of_mem_definitionNames (nodup_definitionNames hm) hitem hi
    (mem_names_of_struct hq) (List.mem_singleton_self _)
  cases hq

theorem members_lookup {members : List (String × TypeName)}
    (h : (program m o).members? x = some members) :
    ((program m o).file l).structs.lookup x =
      some (members.map fun q => (q.1, l.typeName q.2)) :=
  struct_lookup hm (mem_of_members? h) (List.mem_singleton_self _)

theorem handle_lookup (hx : IsDef m x) :
    ((program m o).file l).structs.lookup (x ++ "Ref") = some [("offset", l.uintType)] := by
  obtain ⟨d, hd, rfl⟩ := hx
  exact struct_lookup hm (handle_mem_items hd) (List.mem_singleton_self _)

theorem reader_lookup (hx : IsStruct m x) :
    ((program m o).file l).structs.lookup (x ++ "_read") = none := by
  obtain ⟨d, hd, rfl, fields, hb⟩ := hx
  exact function_lookup hm (function_mem_items hd (readFunction_mem hb _))

omit hm in
theorem constant_lookup (p : Program) (x : String) :
    (p.file .wgsl).constants.lookup x = p.constant? x := by
  have hitems : ∀ items : List Item, (items.flatMap (itemConstants .wgsl)).lookup x =
      { p with items }.constant? x := by
    intro items
    induction items with
    | nil => rfl
    | cons item items ih =>
      cases item with
      | constant n value =>
        rw [List.flatMap_cons, itemConstants, List.singleton_append, List.lookup_cons, ih]
        simp only [Program.constant?, List.findSome?_cons]
        by_cases hn : n = x
        · simp [hn]
        · simp [hn, beq_eq_false_iff_ne.mpr (Ne.symm hn)]
      | _ => exact ih
  have hconstants : (p.file .wgsl).constants = p.items.flatMap (itemConstants .wgsl) :=
    List.nil_append _
  rw [hconstants, hitems]

omit hm in
theorem writable_file (hwr : m.writable = true) : ((program m o).file l).writable = true := by
  have hitems : ∀ items : List Item, (∀ b w, .buffer b w ∈ items → w = true) →
      items.foldl writableAfter true = true := by
    intro items
    induction items with
    | nil => exact fun _ => rfl
    | cons item items ih =>
      intro h
      have hrest := ih fun b w hi => h b w (List.mem_cons_of_mem _ hi)
      cases item with
      | buffer b w =>
        rw [List.foldl_cons, writableAfter, h b w List.mem_cons_self]
        exact hrest
      | _ => exact hrest
  refine hitems _ fun b w hi => ?_
  rcases item_cases hi with ⟨text, heq⟩ | heq | ⟨b', heq⟩ | ⟨d, hd, heq | hdecl | hacc⟩
  · cases heq
  · cases heq
  · rw [(Item.buffer.inj heq).2, hwr]
  · cases heq
  · cases hb : d.body <;> simp [declarations, hb] at hdecl
  · rcases function_or_omitted hacc with ⟨f, heq⟩ | ⟨name, reason, heq⟩
    · cases heq
    · cases heq

theorem not_blocked_buffer : ¬ l.Blocked (program m o).buffer := fun h =>
  notMem_names_of_blocked hm.names h List.mem_cons_self

theorem not_blocked_constant {value : UInt32} (h : (program m o).constant? x = some value) :
    ¬ l.Blocked x := fun hblocked =>
  notMem_names_of_blocked hm.names hblocked <|
    List.mem_cons_of_mem _ (mem_names_of_item (mem_of_constant? h) (List.mem_singleton_self _))

theorem admits_typeName {type : TypeName} (h : type.Fits m) (v : Value) :
    (typeNamed l (l.typeName type)).admits v = type.admits v := by
  cases type with
  | scalar k =>
    rw [Language.typeName, typeNamed_scalar]
    exact isKind_wide k v
  | vector k lanes =>
    rw [Language.typeName, (builtin_vector l k h).2]
    exact admits_wide k lanes v
  | struct name => rw [Language.typeName, typeNamed_usable (usable_struct hm h)]
  | handle name =>
    rw [Language.typeName, (free_handle name).2]
    cases v <;> rfl

omit l x hm in
theorem lookup_map_snd {β γ : Type} (f : β → γ) (table : List (String × β)) (x : String) :
    (table.map fun q => (q.1, f q.2)).lookup x = (table.lookup x).map f := by
  induction table with
  | nil => rfl
  | cons q table ih =>
    rw [List.map_cons, List.lookup_cons, List.lookup_cons, ih]
    split <;> rfl

theorem fits_member {members : List (String × TypeName)} {y : String} {type : TypeName}
    (h : (program m o).members? x = some members) (hy : members.lookup y = some type) :
    type.Fits m := by
  have hmem := mem_of_lookup hy
  rcases item_cases (mem_of_members? h) with ⟨text, heq⟩ | heq | ⟨b, heq⟩ | ⟨d, hd, heq | hi | hi⟩
  · cases heq
  · cases heq
  · cases heq
  · cases heq
  · cases hb : d.body with
    | struct fields =>
      simp only [declarations, hb, List.cons_append, List.nil_append, List.mem_cons,
        List.not_mem_nil, reduceCtorEq, or_false, Item.struct.injEq] at hi
      obtain ⟨-, rfl⟩ := hi
      obtain ⟨f, hf, heq⟩ := List.mem_map.mp hmem
      rw [← (Prod.mk.inj heq).2]
      exact fits_memberType hm.valid hd hb hf
    | union variants => simp [declarations, hb] at hi
    | missing => simp [declarations, hb] at hi
  · rcases function_or_omitted hi with ⟨f, heq⟩ | ⟨name, reason, heq⟩
    · cases heq
    · cases heq

end declared

section sources

variable {m : Module} {l : Language} {o : Options} (hm : Emittable m l o) {d : TypeDef}
  {call : Call} {call' : Shader.Call} {owner : String} {fr : Frame} {env : Env}
  (henv : Matches l owner fr env) (hfollows : Follows call call') (hmakes : Makes m l call)
  {words words' : Array UInt32} {v : Value}
include hm hmakes

theorem eval_handle {name : String} (hname : IsDef m name) {t : Term} {offset : UInt32}
    (ht : t.eval l ((program m o).file l) call env words = some (words', .uint offset)) :
    (handleTerm l name t).eval l ((program m o).file l) call env words =
      some (words', .handle name offset) := by
  have hlookup := handle_lookup hm hname
  have hmake : construct l (name ++ "Ref") [("offset", l.uintType)] [.uint offset] =
      some (.handle name offset) := by
    simp [construct, typeNamed_uint, TypeName.admits, Value.isKind, Value.handle,
      ScalarKind.isFloat, ScalarKind.isSigned]
  rw [handleTerm, eval_apply (evalAll_one ht)]
  cases l with
  | glsl => exact apply_struct (l := .glsl) (by decide) (free_handle name) hlookup hmake
  | hlsl =>
    have hfree : Free .hlsl (name ++ "Ref_new") := free_underscore (by simp)
    exact apply_call hfree (fun h => absurd rfl h) (hmakes rfl name hname offset words')
  | wgsl => exact apply_struct (l := .wgsl) (by decide) (free_handle name) hlookup hmake

include henv

theorem eval_handle_at {name : String} (hname : IsDef m name) (distance : UInt32)
    (words : Array UInt32) :
    (handleTerm l name (distanceTerm l distance)).eval l ((program m o).file l) call env words =
      some (words, .handle name (fr.offset + distance)) :=
  eval_handle hm hmakes hname (eval_distance henv distance words)

include hfollows

theorem eval_read {name : String} (hname : IsStruct m name) {distance : UInt32}
    (h : call' (name ++ "_read") name (fr.offset + distance) none words = some (words', some v)) :
    (Term.apply (name ++ "_read") [handleTerm l name (distanceTerm l distance)]).eval l
      ((program m o).file l) call env words = some (words', v) := by
  have hargs := evalAll_one (eval_handle_at hm henv hmakes hname.isDef distance words)
  rw [eval_apply hargs]
  exact apply_call (free_underscore (by simp)) (fun _ => reader_lookup hm hname)
    (hfollows _ _ _ _ _ _ h)

theorem eval_source {source : Source} (hsource : source.Fits m d)
    (h : source.eval call' fr words = some (words', v)) :
    (sourceTerm l source).eval l ((program m o).file l) call env words = some (words', v) := by
  cases source with
  | scalar x =>
    obtain ⟨u, hu, h⟩ := Option.bind_eq_some_iff.mp h
    obtain ⟨rfl, rfl⟩ := Prod.mk.inj (Option.some.inj h)
    exact eval_term henv hu words
  | vector type lanes =>
    obtain ⟨vs, hvs, h⟩ := Option.bind_eq_some_iff.mp h
    obtain ⟨u, hcons, h⟩ := Option.bind_eq_some_iff.mp h
    obtain ⟨rfl, rfl⟩ := Prod.mk.inj (Option.some.inj h)
    rw [sourceTerm, eval_apply (eval_terms henv hvs words)]
    cases type with
    | scalar k =>
      obtain ⟨cast, hcast, hkeep⟩ := cast_scalar l k
      obtain ⟨rfl, hkind⟩ := construct_scalar hcons
      exact apply_cast hcast (hkeep u hkind)
    | vector k lanes => exact apply_vector hsource.1 hcons
    | struct name => cases hsource.1
    | handle name => cases hsource.1
  | nested name distance =>
    obtain ⟨out, hout, h⟩ := Option.bind_eq_some_iff.mp h
    split at h
    · obtain ⟨rfl, rfl⟩ := Prod.mk.inj (Option.some.inj h)
      exact eval_read hm henv hfollows hmakes hsource hout
    · cases h
  | handle name x =>
    obtain ⟨u, hu, h⟩ := Option.bind_eq_some_iff.mp h
    split at h
    · obtain ⟨rfl, rfl⟩ := Prod.mk.inj (Option.some.inj h)
      exact eval_handle hm hmakes hsource.1 (eval_term henv hu words)
    · cases h

end sources

section statements

variable {m : Module} {l : Language} {o : Options} (hm : Emittable m l o) {d : TypeDef}
  {call : Call} {call' : Shader.Call} {owner : String} {fr : Frame} {env : Env}
  (henv : Matches l owner fr env) (hfollows : Follows call call') (hmakes : Makes m l call)
  {words words' : Array UInt32} {v : Value}

section words

theorem eval_of_part {e : Expr} {a : UInt32} (h : e.part fr = some a) :
    e.eval fr = some (.uint a) := by
  obtain ⟨u, hu, h⟩ := Option.bind_eq_some_iff.mp h
  split at h
  · obtain rfl := Option.some.inj h
    exact hu
  · cases h

include henv in
theorem eval_or {parts : List Expr} (hne : parts ≠ []) {bits : List UInt32}
    (h : parts.mapM (Expr.part fr) = some bits) {file : File} (words : Array UInt32) :
    (orTerm (parts.map (term l))).eval l file call env words =
      some (words, .uint (bits.foldl (· ||| ·) 0)) := by
  rw [mapM_eq_some_iff] at h
  have hfold : ∀ {parts : List Expr} {bits : List UInt32},
      List.Forall₂ (fun e a => Expr.part fr e = some a) parts bits → ∀ (t : Term) (a : UInt32),
        t.eval l file call env words = some (words, .uint a) →
          ((parts.map (term l)).foldl (.binary .or) t).eval l file call env words =
            some (words, .uint (bits.foldl (· ||| ·) a)) := by
    intro parts bits h
    induction h with
    | nil => exact fun t a ht => ht
    | cons he _ ih =>
      exact fun t a ht => ih _ _ (eval_binary ht (eval_term henv (eval_of_part he) words) rfl)
  cases h with
  | nil => exact absurd rfl hne
  | cons he hrest =>
    rw [List.foldl_cons, UInt32.zero_or]
    exact hfold hrest _ _ (eval_term henv (eval_of_part he) words)

include henv hm in
theorem eval_element {t : Term} {i x : UInt32}
    (ht : t.eval l ((program m o).file l) call env words = some (words, .uint i))
    (hx : words[i.toNat]? = some x) :
    (Term.element (.name (program m o).buffer) t).eval l ((program m o).file l) call env words =
      some (words, .uint x) := by
  have hnone := henv.other _ (not_blocked_buffer hm)
  have hbuffer : ((program m o).file l).buffer = (program m o).buffer := rfl
  simp [Term.eval, hnone, hbuffer, ht, hx]

include henv hm in
theorem exec_store (hwr : m.writable = true) {t u : Term} {i x : UInt32}
    (hu : u.eval l ((program m o).file l) call env words = some (words, .uint x))
    (ht : t.eval l ((program m o).file l) call env words = some (words, .uint i))
    (hstore : storeAt words i x = some words') :
    (Statement.assign (.element (.name (program m o).buffer) t) u).exec l ((program m o).file l)
      call env words = some (.next env words') := by
  have hnone := henv.other _ (not_blocked_buffer hm)
  have hbuffer : ((program m o).file l).buffer = (program m o).buffer := rfl
  simp [Statement.exec, hnone, hbuffer, writable_file hwr, hu, ht, hstore]

include henv in
theorem eval_index {ix : UInt32} (hix : fr.ix = some ix) (w : UInt32) {file : File}
    (words : Array UInt32) :
    (Term.binary .add (.name "ix") (.literal w)).eval l file call env words =
      some (words, .uint (ix + w)) := by
  have hname : (Term.name "ix").eval l file call env words = some (words, .uint ix) := by
    simp [Term.eval, henv.ix, hix, Variable.value?]
  exact eval_binary hname rfl rfl

include henv hm in
theorem eval_constant {c : String} {value : UInt32}
    (hc : (program m o).constant? c = some value) (words : Array UInt32) :
    (constantTerm l (program m o) c).eval l ((program m o).file l) call env words =
      some (words, .uint value) := by
  cases l with
  | glsl | hlsl =>
    rw [constantTerm, hc]
    rfl
  | wgsl =>
    have hnone := henv.other _ (not_blocked_constant hm hc)
    simp [constantTerm, Term.eval, hnone, constant_lookup, hc]

include henv in
theorem eval_argument {a : Argument} (ha : a.eval fr = some v) {file : File}
    (words : Array UInt32) :
    (argumentTerm a).eval l file call env words = some (words, v) := by
  cases a with
  | whole =>
    obtain ⟨s, hs, hv⟩ := Option.bind_eq_some_iff.mp ha
    simp [argumentTerm, Term.eval, henv.s, hs, Variable.value?, hv]
  | member name =>
    obtain ⟨s, hs, hv⟩ := Option.bind_eq_some_iff.mp ha
    simp [argumentTerm, Term.eval, henv.s, hs, Variable.member?, hv]

theorem exec_define {file : File} {x : String} {t : Term} {a : UInt32} (hx : env x = none)
    (ht : t.eval l file call env words = some (words', .uint a)) :
    (Statement.define x (localType l) t).exec l file call env words =
      some (.next (Function.update env x (some (.plain (.uint a)))) words') := by
  have htype : (localType l).all (fun type => (typeNamed l type).admits (.uint a)) = true := by
    cases l <;> rfl
  simp [Statement.exec, ht, hx, htype, Variable.of]

theorem exec_finish {file : File} {t : Term}
    (ht : t.eval l file call env words = some (words', v)) :
    (Statement.finish t).exec l file call env words = some (.returned v words') := by
  simp only [Statement.exec, ht, Option.bind_eq_bind, Option.bind_some]

theorem exec_run {file : File} {f : String} {ts : List Term} {vs : List Value}
    (hts : evalAll l file call env ts words = some (words, vs))
    (hcall : call f vs words = some (words', none)) :
    (Statement.run (.apply f ts)).exec l file call env words = some (.next env words') := by
  simp only [Statement.exec, hts, hcall, Option.bind_eq_bind, Option.bind_some]

include hm henv in
theorem exec_assign {s : Local} (hs : fr.s = some s) {members : List (String × TypeName)}
    (hmembers : (program m o).members? s.type = some members) {member : String} {type : TypeName}
    (htype : members.lookup member = some type) {t : Term}
    (ht : t.eval l ((program m o).file l) call env words = some (words', v))
    (hadmits : type.admits v = true) :
    (Statement.assign (.member (.name "s") member) t).exec l ((program m o).file l) call env words =
      some (.next (Function.update env "s" (some (.record (s.set member v)))) words') := by
  have hlookup : (members.map fun q => (q.1, l.typeName q.2)).lookup member =
      some (l.typeName type) := by
    rw [lookup_map_snd, htype]
    rfl
  have hkeep := (admits_typeName hm (fits_member hm hmembers htype) v).trans hadmits
  simp [Statement.exec, henv.s, hs, members_lookup hm hmembers, hlookup, ht, hkeep]

include hm henv in
theorem eval_element_offset {name : String} {i size : UInt32} (hi : fr.index = some i)
    (hsize : (program m o).constant? (name ++ "_size") = some size) (words : Array UInt32) :
    (Term.binary .add (.member (.name l.handleParam) "offset") (.binary .mul (.name "index")
      (constantTerm l (program m o) (name ++ "_size")))).eval l ((program m o).file l) call env
        words = some (words, .uint (fr.offset + i * size)) := by
  have hindex : (Term.name "index").eval l ((program m o).file l) call env words =
      some (words, .uint i) := by
    simp [Term.eval, henv.index, hi, Variable.value?]
  have hproduct : (Term.binary .mul (.name "index") (constantTerm l (program m o)
      (name ++ "_size"))).eval l ((program m o).file l) call env words =
        some (words, .uint (i * size)) :=
    eval_binary hindex (eval_constant hm henv hsize words) rfl
  exact eval_binary (eval_handle_offset henv words) hproduct rfl

end words

include hm henv hfollows hmakes

theorem exec_stmt (hd : d ∈ m.defs) {s : Stmt} (hs : s.Fits m d) {out : Shader.Outcome}
    (h : s.exec (program m o) call' fr words = some out) :
    ∃ out', (statement l (program m o).buffer (constantTerm l (program m o)) s).exec l
        ((program m o).file l) call env words = some out' ∧ SameOutcome l owner out out' := by
  cases s with
  | base =>
    rw [Stmt.exec] at h
    split at h
    · cases h
    · rename_i hix
      obtain rfl := Option.some.inj h
      have hnone : env "ix" = none := by
        rw [henv.ix, Option.not_isSome_iff_eq_none.mp hix]
        rfl
      exact ⟨_, exec_define hnone (eval_first henv words), .next (henv.update_ix _)⟩
  | load w =>
    obtain ⟨ix, hix, h⟩ := Option.bind_eq_some_iff.mp h
    obtain ⟨x, hx, h⟩ := Option.bind_eq_some_iff.mp h
    split at h
    · cases h
    · rename_i hraw
      obtain rfl := Option.some.inj h
      have hnone : env (rawName w) = none := by
        rw [henv.raw, Option.not_isSome_iff_eq_none.mp hraw]
        rfl
      exact ⟨_, exec_define hnone (eval_element hm henv (eval_index henv hix w words) hx),
        .next (henv.update_raw w x)⟩
  | declare name =>
    obtain ⟨members, hmembers, h⟩ := Option.bind_eq_some_iff.mp h
    dsimp only at h
    split at h
    · cases h
    · rename_i hs
      obtain rfl := Option.some.inj h
      have hnone : env "s" = none := by
        rw [henv.s, Option.not_isSome_iff_eq_none.mp hs]
        rfl
      refine ⟨_, ?_, .next (henv.update_s _)⟩
      simp [statement, Statement.exec, members_lookup hm hmembers, hnone, Function.comp_def]
  | assign member source =>
    obtain ⟨s, hfs, h⟩ := Option.bind_eq_some_iff.mp h
    obtain ⟨members, hmembers, h⟩ := Option.bind_eq_some_iff.mp h
    obtain ⟨type, htype, h⟩ := Option.bind_eq_some_iff.mp h
    obtain ⟨⟨words', v⟩, hsource, h⟩ := Option.bind_eq_some_iff.mp h
    dsimp only at h
    split at h
    · rename_i hadmits
      obtain rfl := Option.some.inj h
      have heval := eval_source hm henv hfollows hmakes hs.2 hsource
      exact ⟨_, exec_assign hm henv hfs hmembers htype heval hadmits, .next (henv.update_s _)⟩
    · cases h
  | returnStruct =>
    obtain ⟨s, hfs, h⟩ := Option.bind_eq_some_iff.mp h
    obtain ⟨v, hv, h⟩ := Option.bind_eq_some_iff.mp h
    obtain rfl := Option.some.inj h
    refine ⟨_, ?_, .returned⟩
    simp [statement, Statement.exec, Term.eval, henv.s, hfs, Variable.value?, hv]
  | store w parts =>
    rw [Stmt.exec] at h
    split at h
    · cases h
    · rename_i hne
      obtain ⟨bits, hbits, h⟩ := Option.bind_eq_some_iff.mp h
      obtain ⟨ix, hix, h⟩ := Option.bind_eq_some_iff.mp h
      obtain ⟨words', hstore, h⟩ := Option.bind_eq_some_iff.mp h
      obtain rfl := Option.some.inj h
      exact ⟨_, exec_store hm henv hs.1 (eval_or henv hs.2.1 hbits words)
        (eval_index henv hix w words) hstore, .next henv⟩
  | write name distance a =>
    obtain ⟨v, hv, h⟩ := Option.bind_eq_some_iff.mp h
    obtain ⟨out, hout, h⟩ := Option.bind_eq_some_iff.mp h
    split at h
    · obtain rfl := Option.some.inj h
      have hargs := evalAll_cons (eval_handle_at hm henv hmakes hs.2.1.isDef distance words)
        (evalAll_one (eval_argument henv hv words))
      exact ⟨_, exec_run hargs (hfollows _ _ _ _ _ _ hout), .next henv⟩
    · cases h
  | returnRead name distance =>
    obtain ⟨out, hout, h⟩ := Option.bind_eq_some_iff.mp h
    split at h
    · obtain rfl := Option.some.inj h
      exact ⟨_, exec_finish (eval_read hm henv hfollows hmakes hs hout), .returned⟩
    · cases h
  | returnTag =>
    obtain ⟨x, hx, h⟩ := Option.bind_eq_some_iff.mp h
    obtain rfl := Option.some.inj h
    exact ⟨_, exec_finish (eval_element hm henv (eval_first henv words) hx), .returned⟩
  | storeTag c =>
    obtain ⟨value, hvalue, h⟩ := Option.bind_eq_some_iff.mp h
    obtain ⟨words', hstore, h⟩ := Option.bind_eq_some_iff.mp h
    obtain rfl := Option.some.inj h
    exact ⟨_, exec_store hm henv hs.1 (eval_constant hm henv hvalue words) (eval_first henv words)
      hstore, .next henv⟩
  | returnElement name =>
    obtain ⟨size, hsize, h⟩ := Option.bind_eq_some_iff.mp h
    obtain ⟨i, hi, h⟩ := Option.bind_eq_some_iff.mp h
    obtain rfl := Option.some.inj h
    exact ⟨_, exec_finish (eval_handle hm hmakes ⟨d, hd, hs.symm⟩
      (eval_element_offset hm henv hi hsize words)), .returned⟩

theorem exec_body (hd : d ∈ m.defs) {body : List Stmt} (hbody : ∀ s ∈ body, s.Fits m d)
    {result : Option Value}
    (h : execBody (program m o) call' body fr words = some (words', result)) :
    execAll l ((program m o).file l) call
      (body.map (statement l (program m o).buffer (constantTerm l (program m o)))) env words =
        some (words', result) := by
  induction body generalizing fr env words with
  | nil => exact h
  | cons s body ih =>
    rw [List.forall_mem_cons] at hbody
    rw [execBody] at h
    cases hs : s.exec (program m o) call' fr words with
    | none =>
      rw [hs] at h
      cases h
    | some out =>
      obtain ⟨out', hout', hsame⟩ := exec_stmt hm henv hfollows hmakes hd hbody.1 hs
      rw [hs] at h
      rw [List.map_cons, execAll, hout']
      cases hsame with
      | next hnext => exact ih hnext hbody.2 h
      | returned => exact h

end statements

end Listing

end WordLayout.Shader
