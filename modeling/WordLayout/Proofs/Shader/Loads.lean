import Mathlib
import WordLayout.Proofs.Coverage.Modes
import WordLayout.Proofs.Shader.Listing.Programs

/-!
The words that accessors load and store, in the text of each function. A reader declares a loaded
word for each group that has scalars, while its members name the word in which a scalar lies; both
are the words of the scalars of the struct. A writer stores each of these words once.
-/

namespace WordLayout.Shader

open Coverage Validation Word
open Listing hiding resolve

namespace Stmt

def declared? : Stmt → Option String
  | .base => some "ix"
  | .load w => some (rawName w)
  | .declare _ => some "s"
  | _ => none

def stored? : Stmt → Option UInt32
  | .store w _ => some w
  | _ => none

end Stmt

def Function.locals (f : Function) : List String := f.body.filterMap Stmt.declared?

namespace Listing

mutual

/-- The names in an expression, without those of what is called and of members. -/
def Term.names : Term → List String
  | .literal _ => []
  | .name x => [x]
  | .member t _ => t.names
  | .element t i => t.names ++ i.names
  | .apply _ args => namesAll args
  | .binary _ a b => a.names ++ b.names

def namesAll : List Term → List String
  | [] => []
  | t :: ts => t.names ++ namesAll ts

end

namespace Statement

def declared? : Statement → Option String
  | .define x _ _ | .declare x _ => some x
  | _ => none

def names : Statement → List String
  | .define _ _ value => value.names
  | .declare .. => []
  | .assign target value => target.names ++ value.names
  | .run t | .finish t => t.names

def stored? : Statement → Option Term
  | .assign (.element _ i) _ => some i
  | _ => none

end Statement

namespace Routine

def locals (r : Routine) : List String := r.body.filterMap Statement.declared?

def stores (r : Routine) : List Term := r.body.filterMap Statement.stored?

def known (r : Routine) (buffer : String) : Set String :=
  {x | x ∈ buffer :: r.params.map (·.1)}

end Routine

/-- Every name in a statement is known or declared by a statement before it. -/
def Scoped : Set String → List Statement → Prop
  | _, [] => True
  | known, s :: body =>
    (∀ x ∈ s.names, x ∈ known) ∧ Scoped (known ∪ {x | s.declared? = some x}) body

section scopes

variable {known known' : Set String} {body body' : List Statement}

theorem Scoped.mono (h : Scoped known body) (hk : known ⊆ known') : Scoped known' body := by
  induction body generalizing known known' with
  | nil => trivial
  | cons s body ih =>
    refine ⟨fun x hx => hk (h.1 x hx), ?_⟩
    exact ih h.2 (Set.union_subset_union_left _ hk)

theorem scoped_of_names (h : ∀ s ∈ body, ∀ x ∈ s.names, x ∈ known) : Scoped known body := by
  induction body with
  | nil => trivial
  | cons s body ih =>
    rw [List.forall_mem_cons] at h
    exact ⟨h.1, (ih h.2).mono Set.subset_union_left⟩

theorem scoped_append :
    Scoped known (body ++ body') ↔
      Scoped known body ∧ Scoped (known ∪ {x | x ∈ body.filterMap Statement.declared?}) body' := by
  induction body generalizing known with
  | nil => simp [Scoped]
  | cons s body ih =>
    have hset : known ∪ {x | x ∈ (s :: body).filterMap Statement.declared?} =
        known ∪ {x | s.declared? = some x} ∪ {x | x ∈ body.filterMap Statement.declared?} := by
      ext x
      simp [or_assoc]
    rw [List.cons_append, Scoped, Scoped, ih, hset, and_assoc]

end scopes

structure LoadsNeeded (buffer : String) (size : UInt32) (r : Routine) : Prop where
  once : r.locals.Nodup
  inOrder : Scoped (r.known buffer) r.body
  used : ∀ x, isRawName x = true →
    (x ∈ r.locals ↔
      ∃ member value, .assign (.member (.name "s") member) value ∈ r.body ∧ x ∈ value.names)
  inside : ∀ x ∈ r.locals, isRawName x = true → ∃ w type, x = rawName w ∧
    w.toNat < size.toNat / 4 ∧ .define x type (wordTerm buffer w) ∈ r.body
  base : "ix" ∈ r.locals ↔ ∃ x ∈ r.locals, isRawName x = true

structure StoresNeeded (buffer : String) (r : Routine) : Prop where
  inOrder : Scoped (r.known buffer) r.body
  base : "ix" ∈ r.locals ↔ r.stores ≠ []
  words : ∀ i ∈ r.stores, ∃ w, i = .binary .add (.name "ix") (.literal w)
  once : r.stores.Nodup

section readings

variable {l : Language} {buffer : String} {constant : String → Term}

theorem names_term (e : Expr) : (term l e).names = Language.exprLocals e := by
  induction e with
  | raw w => rfl
  | member name lane => cases lane <;> rfl
  | offset name => rfl
  | mask x _ ih | shiftLeft x _ ih | shiftRight x _ ih =>
    simpa [term, Term.names, Language.exprLocals] using ih
  | group x ih => exact ih
  | floatFromBits x ih | floatToBits x ih | intFromBits x ih | intToBits x ih =>
    simpa [term, Term.names, namesAll, Language.exprLocals] using ih

theorem namesAll_eq (ts : List Term) : namesAll ts = ts.flatMap Term.names := by
  induction ts with
  | nil => rfl
  | cons t ts ih => rw [namesAll, ih, List.flatMap_cons]

theorem names_handleAt (name : String) (distance : UInt32) :
    (handleTerm l name (distanceTerm l distance)).names = [l.handleParam] := by
  unfold distanceTerm
  split
  · rfl
  · rfl

theorem names_sourceTerm (source : Source) :
    (sourceTerm l source).names = l.sourceLocals source := by
  cases source with
  | scalar x => exact names_term x
  | vector type lanes =>
    simp [sourceTerm, Term.names, namesAll_eq, Language.sourceLocals, List.flatMap_map, names_term]
  | nested name distance =>
    simp [sourceTerm, Term.names, namesAll, Language.sourceLocals, names_handleAt]
  | handle name x =>
    simp [sourceTerm, handleTerm, Term.names, namesAll, Language.sourceLocals, names_term]

theorem names_orTerm (ts : List Term) : (orTerm ts).names = ts.flatMap Term.names := by
  cases ts with
  | nil => rfl
  | cons t ts =>
    rw [List.flatMap_cons, orTerm]
    induction ts generalizing t with
    | nil => simp
    | cons u ts ih => simp [ih, Term.names]

theorem names_store (w : UInt32) (parts : List Expr) :
    (statement l buffer constant (.store w parts)).names =
      buffer :: "ix" :: parts.flatMap Language.exprLocals := by
  simp [statement, Statement.names, wordTerm, Term.names, names_orTerm, List.flatMap_map,
    names_term]

theorem names_write (name : String) (distance : UInt32) (a : Argument) :
    (statement l buffer constant (.write name distance a)).names = [l.handleParam, "s"] := by
  cases a <;>
    simp [statement, Statement.names, argumentTerm, Term.names, namesAll, names_handleAt]

theorem declared_statements (ss : List Stmt) :
    (ss.map (statement l buffer constant)).filterMap Statement.declared? =
      ss.filterMap Stmt.declared? := by
  rw [List.filterMap_map]
  apply List.filterMap_congr
  intro s _
  cases s <;> rfl

theorem locals_routine (f : Function) : (f.routine l buffer constant).locals = f.locals :=
  declared_statements f.body

theorem mem_known_iff {f : Function} {x : String} :
    x ∈ (f.routine l buffer constant).known buffer ↔
      x = buffer ∨ x ∈ (l.params f).map (·.name) := by
  simp [Routine.known, Function.routine]

theorem stored_statement {s : Stmt} (hs : ∀ c, s ≠ .storeTag c) :
    (statement l buffer constant s).stored? =
      s.stored?.map fun w => .binary .add (.name "ix") (.literal w) := by
  cases s with
  | storeTag c => exact absurd rfl (hs c)
  | _ => rfl

theorem member_assign_iff {s : Stmt} {member : String} {value : Term} :
    statement l buffer constant s = .assign (.member (.name "s") member) value ↔
      ∃ source, s = .assign member source ∧ sourceTerm l source = value := by
  cases s <;> simp [statement, wordTerm, tagTerm, and_assoc]

end readings

end Listing

section expressions

variable {l : Language} {m : Module}

theorem exprLocals_extractExpr (offset : UInt32) (kind : ScalarKind) :
    Language.exprLocals (extractExpr offset kind) = [rawName (offset / 4)] := by
  rw [← Extract.plan_word offset kind]
  simp only [extractExpr]
  split
  all_goals rfl

theorem exprLocals_insertExpr (maskUnsigned : Bool) (offset : UInt32) (kind : ScalarKind)
    (name : String) (lane : Option Nat) :
    Language.exprLocals (insertExpr maskUnsigned offset kind (.member name lane)) = ["s"] := by
  simp only [insertExpr]
  repeat' split
  all_goals rfl

theorem sourceLocals_leaf (i : Nat) {f : Field} {k : ScalarKind} {n : Nat}
    (hl : f.ty.leaf? = some (k, n)) :
    l.sourceLocals (fieldSource m f) =
      (List.range n).map fun lane => rawName (leafPiece i f k lane).word := by
  cases ht : f.ty with
  | scalar _ | ref _ =>
    simp only [ht, Ty.leaf?, Option.some.injEq, Prod.mk.injEq] at hl
    obtain ⟨rfl, rfl⟩ := hl
    simp [fieldSource, ht, Language.sourceLocals, exprLocals_extractExpr, Piece.word, leafPiece]
  | vector _ lanes =>
    simp only [ht, Ty.leaf?, Option.some.injEq, Prod.mk.injEq] at hl
    obtain ⟨rfl, rfl⟩ := hl
    simp only [fieldSource, ht, Language.sourceLocals, List.flatMap_map, exprLocals_extractExpr,
      Piece.word, leafPiece]
    rw [List.map_eq_flatMap]
  | inline t => simp [ht, Ty.leaf?] at hl
  | missing => simp [ht, Ty.leaf?] at hl

end expressions

section base

variable {l : Language} {buffer : String} {constant : String → Term} {known : Set String}
  {groups : List Group}

theorem locals_base (groups : List Group) :
    (baseStmts groups).filterMap Stmt.declared? =
      if groups.any Group.needsRaw then ["ix"] else [] := by
  unfold baseStmts
  split
  · rfl
  · rfl

theorem ix_mem_base {g : Group} (hg : g ∈ groups) (hraw : g.needsRaw = true) :
    "ix" ∈ (baseStmts groups).filterMap Stmt.declared? := by
  rw [locals_base, if_pos (List.any_eq_true.mpr ⟨g, hg, hraw⟩)]
  exact List.mem_singleton_self _

theorem inOrder_base (hk : l.handleParam ∈ known) :
    Scoped known ((baseStmts groups).map (statement l buffer constant)) := by
  apply scoped_of_names
  intro s hst x hx
  obtain ⟨t, ht, rfl⟩ := List.mem_map.mp hst
  obtain rfl := List.mem_singleton.mp (List.mem_ite_nil_right.mp ht).2
  obtain rfl := List.mem_singleton.mp hx
  exact hk

end base

section reading

variable {l : Language} {buffer : String} {constant : String → Term} {m : Module} {h : Handle}
  {d : TypeDef} {fields : List Field}

def openingStmts (d : TypeDef) (fields : List Field) : List Stmt :=
  let groups := resolve fields d.size .read
  baseStmts groups ++
    ((groups.filter Group.needsRaw).map (fun g => .load g.word) ++ [.declare d.name])

def memberStmts (m : Module) (fields : List Field) : List Stmt :=
  fields.map (fun f => .assign f.name (fieldSource m f)) ++ [.returnStruct]

theorem readFunction_body :
    (readFunction m d fields).body = openingStmts d fields ++ memberStmts m fields := by
  simp [readFunction, readBody, openingStmts, memberStmts]

theorem locals_opening :
    (openingStmts d fields).filterMap Stmt.declared? = (readFunction m d fields).locals := by
  have hnone : (memberStmts m fields).filterMap Stmt.declared? = [] := by
    simp [memberStmts, Function.comp_def, Stmt.declared?]
  rw [Function.locals, readFunction_body, List.filterMap_append, hnone, List.append_nil]

theorem locals_readFunction :
    (readFunction m d fields).locals =
      (if (resolve fields d.size .read).any Group.needsRaw then ["ix"] else []) ++
        (((resolve fields d.size .read).filter Group.needsRaw).map (fun g => rawName g.word) ++
          ["s"]) := by
  have hloads : ∀ groups : List Group,
      (groups.map fun g => Stmt.load g.word).filterMap Stmt.declared? =
        groups.map fun g => rawName g.word := by
    intro groups
    simp [List.filterMap_map, Function.comp_def, Stmt.declared?]
  rw [← locals_opening]
  simp only [openingStmts, List.filterMap_append, locals_base, hloads, List.filterMap_cons,
    List.filterMap_nil, Stmt.declared?]

theorem mem_loads_iff {x : String} (hx : isRawName x = true) :
    x ∈ (readFunction m d fields).locals ↔
      ∃ g ∈ resolve fields d.size .read, g.needsRaw = true ∧ x = rawName g.word := by
  have hne : ∀ y, isRawName y = false → x ≠ y := by
    rintro y hy rfl
    rw [hx] at hy
    cases hy
  simp only [locals_readFunction, List.mem_append, List.mem_ite_nil_right, List.mem_singleton,
    hne _ not_raw_ix, hne _ not_raw_s, and_false, false_or, or_false, List.mem_map,
    List.mem_filter, and_assoc, eq_comm (a := x)]

theorem ix_mem_read_iff :
    "ix" ∈ (readFunction m d fields).locals ↔
      ∃ g ∈ resolve fields d.size .read, g.needsRaw = true := by
  have hraw : ∀ w, rawName w ≠ "ix" := fun w => rawName_ne not_raw_ix
  simp [locals_readFunction, hraw]

theorem assign_mem_read_iff {member : String} {source : Source} :
    .assign member source ∈ (readFunction m d fields).body ↔
      ∃ f ∈ fields, f.name = member ∧ fieldSource m f = source := by
  simp [readFunction, readBody, baseStmts]

theorem locals_readFunction_nodup : (readFunction m d fields).locals.Nodup := by
  have hwords := (resolve_word_ne fields d.size .read).filter Group.needsRaw
  have hloads : (((resolve fields d.size .read).filter Group.needsRaw).map
      fun g => rawName g.word).Nodup :=
    List.pairwise_map.mpr (hwords.imp fun hne heq => hne (rawName_injective heq))
  have hlast : (((resolve fields d.size .read).filter Group.needsRaw).map
      (fun g => rawName g.word) ++ ["s"]).Nodup := by
    refine hloads.append (List.nodup_singleton _) ?_
    rw [List.disjoint_singleton, List.mem_map]
    rintro ⟨g, -, heq⟩
    exact rawName_ne not_raw_s heq
  have hraw : ∀ w, rawName w ≠ "ix" := fun w => rawName_ne not_raw_ix
  rw [locals_readFunction]
  split
  · rw [List.singleton_append, List.nodup_cons]
    refine ⟨?_, hlast⟩
    simp [hraw]
  · exact hlast

section sound

variable (hs : StructSound m h d.size fields) (ha : d.size.toNat % 4 = 0)
include hs ha

theorem needsRaw_word_iff (mode : Mode) (x : String) :
    (∃ g ∈ resolve fields d.size mode, g.needsRaw = true ∧ x = rawName g.word) ↔
      ∃ p, ScalarPiece fields p ∧ x = rawName p.word := by
  constructor
  · rintro ⟨g, hg, hraw, rfl⟩
    obtain ⟨p, hp, hr⟩ := List.any_eq_true.mp hraw
    obtain ⟨hmem, hword⟩ := of_mem_group hg hp
    exact ⟨p, (mem_pieces_raw_iff hs ha mode).mp ⟨hmem, hr⟩, congrArg rawName hword⟩
  · rintro ⟨p, hp, rfl⟩
    obtain ⟨hmem, hr⟩ := (mem_pieces_raw_iff hs ha mode).mpr hp
    obtain ⟨g, hg, hword, hpg⟩ := exists_group_of_mem d.size hmem
    refine ⟨g, List.mem_of_getElem? hg, List.any_eq_true.mpr ⟨p, hpg, hr⟩, ?_⟩
    rw [hword]

omit hs ha in
theorem eq_handleParam {f : Field} (hp : f.Placed m d.size) {x : String}
    (hx : x ∈ l.sourceLocals (fieldSource m f)) (hraw : isRawName x = false) :
    x = l.handleParam := by
  rcases leaf_or_inline hp with ⟨k, n, hl⟩ | ⟨t, ht⟩
  · rw [sourceLocals_leaf 0 hl, List.mem_map] at hx
    obtain ⟨lane, -, rfl⟩ := hx
    rw [Language.isRawName_rawName] at hraw
    cases hraw
  · simpa [fieldSource, ht, Language.sourceLocals] using hx

omit ha in
theorem raw_mem_sources_iff {x : String} (hx : isRawName x = true) :
    (∃ f ∈ fields, x ∈ l.sourceLocals (fieldSource m f)) ↔
      ∃ p, ScalarPiece fields p ∧ x = rawName p.word := by
  constructor
  · rintro ⟨f, hf, hmem⟩
    obtain ⟨i, hi⟩ := List.getElem?_of_mem hf
    rcases leaf_or_inline (hs.placed f hf) with ⟨k, n, hl⟩ | ⟨t, ht⟩
    · rw [sourceLocals_leaf i hl, List.mem_map] at hmem
      obtain ⟨lane, hlane, rfl⟩ := hmem
      exact ⟨_, ⟨i, f, k, n, lane, hi, hl, List.mem_range.mp hlane, rfl⟩, rfl⟩
    · simp only [fieldSource, ht, Language.sourceLocals, List.mem_singleton] at hmem
      rw [hmem, not_raw_handleParam] at hx
      cases hx
  · rintro ⟨p, ⟨i, f, k, n, lane, hi, hl, hlane, rfl⟩, rfl⟩
    refine ⟨f, List.mem_of_getElem? hi, ?_⟩
    rw [sourceLocals_leaf i hl]
    exact List.mem_map.mpr ⟨lane, List.mem_range.mpr hlane, rfl⟩

theorem declared_iff_used {x : String} (hx : isRawName x = true) :
    x ∈ (readFunction m d fields).locals ↔
      ∃ f ∈ fields, x ∈ l.sourceLocals (fieldSource m f) := by
  rw [mem_loads_iff hx, needsRaw_word_iff hs ha .read x, raw_mem_sources_iff hs hx]

omit hs ha in
theorem inOrder_opening {known : Set String} (hb : buffer ∈ known) (hk : l.handleParam ∈ known) :
    Scoped known ((openingStmts d fields).map (statement l buffer constant)) := by
  rw [openingStmts, List.map_append, scoped_append, declared_statements]
  refine ⟨inOrder_base hk, ?_⟩
  apply scoped_of_names
  intro s hst x hx
  obtain ⟨t, ht, rfl⟩ := List.mem_map.mp hst
  rcases List.mem_append.mp ht with ht | ht
  · obtain ⟨g, hg, rfl⟩ := List.mem_map.mp ht
    obtain ⟨hg, hraw⟩ := List.mem_filter.mp hg
    rcases List.mem_cons.mp hx with rfl | hx
    · exact .inl hb
    · obtain rfl := List.mem_singleton.mp hx
      exact .inr (ix_mem_base hg hraw)
  · obtain rfl := List.mem_singleton.mp ht
    cases hx

theorem inOrder_readFunction (l : Language) (buffer : String) (constant : String → Term) :
    Scoped (((readFunction m d fields).routine l buffer constant).known buffer)
      ((readFunction m d fields).routine l buffer constant).body := by
  have hb : buffer ∈ ((readFunction m d fields).routine l buffer constant).known buffer :=
    mem_known_iff.mpr (.inl rfl)
  have hk : l.handleParam ∈
      ((readFunction m d fields).routine l buffer constant).known buffer :=
    mem_known_iff.mpr (.inr List.mem_cons_self)
  have hstruct : "s" ∈ (readFunction m d fields).locals := by simp [locals_readFunction]
  have hbody : ((readFunction m d fields).routine l buffer constant).body =
      (openingStmts d fields).map (statement l buffer constant) ++
        (memberStmts m fields).map (statement l buffer constant) := by
    rw [← List.map_append, ← readFunction_body]
    rfl
  rw [hbody, scoped_append, declared_statements, locals_opening (m := m)]
  refine ⟨inOrder_opening hb hk, ?_⟩
  apply scoped_of_names
  intro s hst x hx
  obtain ⟨t, ht, rfl⟩ := List.mem_map.mp hst
  rcases List.mem_append.mp ht with ht | ht
  · obtain ⟨f, hf, rfl⟩ := List.mem_map.mp ht
    rcases List.mem_cons.mp hx with rfl | hx
    · exact .inr hstruct
    · rw [names_sourceTerm] at hx
      cases hraw : isRawName x with
      | true => exact .inr ((declared_iff_used hs ha hraw).mpr ⟨f, hf, hx⟩)
      | false =>
        rw [eq_handleParam (hs.placed f hf) hx hraw]
        exact .inl hk
  · obtain rfl := List.mem_singleton.mp ht
    obtain rfl := List.mem_singleton.mp hx
    exact .inr hstruct

theorem loadsNeeded_readFunction (l : Language) (buffer : String) (constant : String → Term) :
    LoadsNeeded buffer d.size ((readFunction m d fields).routine l buffer constant) where
  once := by
    rw [locals_routine]
    exact locals_readFunction_nodup
  inOrder := inOrder_readFunction hs ha l buffer constant
  used x hx := by
    rw [locals_routine, declared_iff_used (l := l) hs ha hx]
    constructor
    · rintro ⟨f, hf, hmem⟩
      refine ⟨f.name, sourceTerm l (fieldSource m f), ?_, (names_sourceTerm _).symm ▸ hmem⟩
      exact List.mem_map.mpr ⟨_, assign_mem_read_iff.mpr ⟨f, hf, rfl, rfl⟩, rfl⟩
    · rintro ⟨member, value, hassign, hmem⟩
      obtain ⟨s, hst, hread⟩ := List.mem_map.mp hassign
      obtain ⟨source, rfl, rfl⟩ := member_assign_iff.mp hread
      rw [names_sourceTerm] at hmem
      obtain ⟨f, hf, -, rfl⟩ := assign_mem_read_iff.mp hst
      exact ⟨f, hf, hmem⟩
  inside x hmem hx := by
    rw [locals_routine] at hmem
    obtain ⟨g, hg, hraw, rfl⟩ := (mem_loads_iff hx).mp hmem
    refine ⟨g.word, localType l, rfl, word_lt_of_needsRaw hs ha hg hraw, ?_⟩
    refine List.mem_map.mpr ⟨.load g.word, ?_, rfl⟩
    simp only [readFunction, readBody, List.mem_append, List.mem_map, List.mem_filter]
    exact .inl (.inl (.inl (.inr ⟨g, ⟨hg, hraw⟩, rfl⟩)))
  base := by
    rw [locals_routine, ix_mem_read_iff]
    constructor
    · rintro ⟨g, hg, hraw⟩
      have hname := Language.isRawName_rawName g.word
      exact ⟨_, (mem_loads_iff hname).mpr ⟨g, hg, hraw, rfl⟩, hname⟩
    · rintro ⟨x, hmem, hx⟩
      obtain ⟨g, hg, hraw, -⟩ := (mem_loads_iff hx).mp hmem
      exact ⟨g, hg, hraw⟩

end sound

end reading

section writing

variable {m : Module} {maskUnsigned : Bool} {d : TypeDef} {fields : List Field}

theorem pieceExpr?_isSome_iff (maskUnsigned : Bool) {p : Piece} (hp : p ∈ pieces .write fields) :
    (pieceExpr? maskUnsigned fields p).isSome = true ↔ p.isRaw = true := by
  obtain ⟨i, f, hf, hpf⟩ := mem_pieces_iff.mp hp
  obtain rfl := field_of_mem_piecesOf hpf
  obtain ⟨hkind, hty⟩ := kind_of_mem_piecesOf hpf
  cases ht : f.ty with
  | missing => exact absurd ht hty
  | _ => simp [pieceExpr?, hf, ht, Piece.isRaw, hkind, Ty.pieceKind]

theorem parts_isEmpty {g : Group} (hg : g ∈ resolve fields d.size .write) :
    (g.pieces.filterMap (pieceExpr? maskUnsigned fields)).isEmpty = !g.needsRaw := by
  rw [Bool.eq_iff_iff, List.isEmpty_iff, List.filterMap_eq_nil_iff, Bool.not_eq_true',
    Group.needsRaw, List.any_eq_false]
  apply forall₂_congr
  intro p hp
  rw [← pieceExpr?_isSome_iff maskUnsigned (of_mem_group hg hp).1,
    Option.not_isSome_iff_eq_none]

theorem pieceWrite?_cases {p : Piece} {s : Stmt} (h : pieceWrite? m fields p = some s) :
    ∃ name distance argument, s = .write name distance argument := by
  obtain ⟨f, -, h⟩ := Option.bind_eq_some_iff.mp h
  cases ht : f.ty with
  | inline t =>
    simp only [ht, Option.some.injEq] at h
    exact ⟨_, _, _, h.symm⟩
  | _ => simp [ht] at h

theorem stored_groupStmts {g : Group} (hg : g ∈ resolve fields d.size .write) :
    (groupStmts m maskUnsigned fields g).filterMap Stmt.stored? =
      if g.needsRaw then [g.word] else [] := by
  have hcalls : (g.pieces.filterMap (pieceWrite? m fields)).filterMap Stmt.stored? = [] := by
    rw [List.filterMap_eq_nil_iff]
    intro s hs
    obtain ⟨p, -, hp⟩ := List.mem_filterMap.mp hs
    obtain ⟨name, distance, argument, rfl⟩ := pieceWrite?_cases hp
    rfl
  rw [groupStmts, List.filterMap_append, hcalls, List.nil_append, parts_isEmpty hg]
  cases g.needsRaw <;> rfl

theorem stored_writeFunction :
    (writeFunction m maskUnsigned d fields).body.filterMap Stmt.stored? =
      ((resolve fields d.size .write).filter Group.needsRaw).map (·.word) := by
  have hbase : (baseStmts (resolve fields d.size .write)).filterMap Stmt.stored? = [] := by
    unfold baseStmts
    split
    · rfl
    · rfl
  have hgroups : ∀ groups : List Group, (∀ g ∈ groups, g ∈ resolve fields d.size .write) →
      (groups.flatMap (groupStmts m maskUnsigned fields)).filterMap Stmt.stored? =
        (groups.filter Group.needsRaw).map (·.word) := by
    intro groups hmem
    induction groups with
    | nil => rfl
    | cons g groups ih =>
      rw [List.forall_mem_cons] at hmem
      rw [List.flatMap_cons, List.filterMap_append, stored_groupStmts hmem.1, ih hmem.2,
        List.filter_cons]
      cases g.needsRaw <;> rfl
  simp only [writeFunction, writeBody, List.filterMap_append, hbase, List.nil_append]
  exact hgroups _ fun _ hg => hg

theorem exprLocals_pieceExpr? {p : Piece} {e : Expr}
    (h : pieceExpr? maskUnsigned fields p = some e) : Language.exprLocals e = ["s"] := by
  obtain ⟨f, -, h⟩ := Option.bind_eq_some_iff.mp h
  cases ht : f.ty with
  | scalar _ | vector _ _ =>
    simp only [ht, Option.some.injEq] at h
    rw [← h, exprLocals_insertExpr]
  | ref _ =>
    simp only [ht, Option.some.injEq] at h
    rw [← h]
    rfl
  | inline _ | missing => simp [ht] at h

theorem groupStmts_cases {g : Group} (hg : g ∈ resolve fields d.size .write) {s : Stmt}
    (hs : s ∈ groupStmts m maskUnsigned fields g) :
    (∃ name distance argument, s = .write name distance argument) ∨
      g.needsRaw = true ∧ ∃ parts, s = .store g.word parts ∧
        ∀ e ∈ parts, Language.exprLocals e = ["s"] := by
  rcases List.mem_append.mp hs with hs | hs
  · obtain ⟨p, -, hp⟩ := List.mem_filterMap.mp hs
    exact .inl (pieceWrite?_cases hp)
  · obtain ⟨hne, hs⟩ := List.mem_ite_nil_left.mp hs
    rw [parts_isEmpty hg, Bool.not_eq_true', Bool.not_eq_false] at hne
    refine .inr ⟨hne, _, List.mem_singleton.mp hs, ?_⟩
    intro e he
    obtain ⟨p, -, hp⟩ := List.mem_filterMap.mp he
    exact exprLocals_pieceExpr? hp

theorem locals_writeFunction :
    (writeFunction m maskUnsigned d fields).locals =
      if (resolve fields d.size .write).any Group.needsRaw then ["ix"] else [] := by
  have hnone : ((resolve fields d.size .write).flatMap
      (groupStmts m maskUnsigned fields)).filterMap Stmt.declared? = [] := by
    rw [List.filterMap_eq_nil_iff]
    intro s hs
    obtain ⟨g, hg, hs⟩ := List.mem_flatMap.mp hs
    rcases groupStmts_cases hg hs with ⟨_, _, _, rfl⟩ | ⟨-, _, rfl, -⟩
    · rfl
    · rfl
  simp only [Function.locals, writeFunction, writeBody, List.filterMap_append, locals_base, hnone,
    List.append_nil]

theorem write_cases {s : Stmt} (hs : s ∈ (writeFunction m maskUnsigned d fields).body) :
    s ∈ baseStmts (resolve fields d.size .write) ∨
      (∃ name distance argument, s = .write name distance argument) ∨
      ∃ g ∈ resolve fields d.size .write, g.needsRaw = true ∧ ∃ parts, s = .store g.word parts ∧
        ∀ e ∈ parts, Language.exprLocals e = ["s"] := by
  rcases List.mem_append.mp hs with hs | hs
  · exact .inl hs
  · obtain ⟨g, hg, hs⟩ := List.mem_flatMap.mp hs
    rcases groupStmts_cases hg hs with hwrite | ⟨hraw, hstore⟩
    · exact .inr (.inl hwrite)
    · exact .inr (.inr ⟨g, hg, hraw, hstore⟩)

section routines

variable (l : Language) (buffer : String) (constant : String → Term)

theorem inOrder_writeFunction :
    Scoped (((writeFunction m maskUnsigned d fields).routine l buffer constant).known buffer)
      ((writeFunction m maskUnsigned d fields).routine l buffer constant).body := by
  have hb : buffer ∈
      ((writeFunction m maskUnsigned d fields).routine l buffer constant).known buffer :=
    mem_known_iff.mpr (.inl rfl)
  have hparams : ∀ x ∈ [l.handleParam, "s"],
      x ∈ ((writeFunction m maskUnsigned d fields).routine l buffer constant).known buffer :=
    fun x hx => mem_known_iff.mpr (.inr hx)
  have hbody : ((writeFunction m maskUnsigned d fields).routine l buffer constant).body =
      (baseStmts (resolve fields d.size .write)).map (statement l buffer constant) ++
        ((resolve fields d.size .write).flatMap (groupStmts m maskUnsigned fields)).map
          (statement l buffer constant) := by
    rw [← List.map_append]
    rfl
  rw [hbody, scoped_append, declared_statements]
  refine ⟨inOrder_base (hparams _ List.mem_cons_self), ?_⟩
  apply scoped_of_names
  intro s hst x hx
  obtain ⟨t, ht, rfl⟩ := List.mem_map.mp hst
  obtain ⟨g, hg, ht⟩ := List.mem_flatMap.mp ht
  rcases groupStmts_cases hg ht with ⟨_, _, _, rfl⟩ | ⟨hraw, parts, rfl, hparts⟩
  · rw [names_write] at hx
    exact .inl (hparams x hx)
  · rw [names_store] at hx
    rcases List.mem_cons.mp hx with rfl | hx
    · exact .inl hb
    rcases List.mem_cons.mp hx with rfl | hx
    · exact .inr (ix_mem_base hg hraw)
    · obtain ⟨e, he, hx⟩ := List.mem_flatMap.mp hx
      rw [hparts e he] at hx
      exact .inl (hparams x (List.mem_cons_of_mem _ hx))

theorem stores_writeFunction :
    ((writeFunction m maskUnsigned d fields).routine l buffer constant).stores =
      ((resolve fields d.size .write).filter Group.needsRaw).map
        fun g => .binary .add (.name "ix") (.literal g.word) := by
  have hread : ∀ s ∈ (writeFunction m maskUnsigned d fields).body,
      (statement l buffer constant s).stored? =
        s.stored?.map fun w => .binary .add (.name "ix") (.literal w) := by
    intro s hs
    apply stored_statement
    rintro c rfl
    rcases write_cases hs with hs | ⟨_, _, _, hs⟩ | ⟨_, -, -, _, hs, -⟩
    · cases List.mem_singleton.mp (List.mem_ite_nil_right.mp hs).2
    · cases hs
    · cases hs
  rw [Routine.stores, Function.routine, List.filterMap_map]
  refine (List.filterMap_congr hread).trans ?_
  rw [← List.map_filterMap, stored_writeFunction, List.map_map]
  rfl

theorem storesNeeded_writeFunction :
    StoresNeeded buffer ((writeFunction m maskUnsigned d fields).routine l buffer constant) where
  inOrder := inOrder_writeFunction l buffer constant
  base := by
    rw [locals_routine, stores_writeFunction, locals_writeFunction]
    simp
  words i hi := by
    rw [stores_writeFunction] at hi
    obtain ⟨g, -, rfl⟩ := List.mem_map.mp hi
    exact ⟨g.word, rfl⟩
  once := by
    rw [stores_writeFunction]
    have hwords := (resolve_word_ne fields d.size .write).filter Group.needsRaw
    refine List.pairwise_map.mpr (hwords.imp fun hne heq => hne ?_)
    injection heq with _ _ heq
    injection heq

end routines

end writing

theorem eq_of_function_name {m : Module} {l : Language} {o : Options} {out : Output}
    (he : emit m l o = .ok out) {f g : Function} (hf : f ∈ out.program.functions)
    (hg : g ∈ out.program.functions) (hname : f.name = g.name) : f = g :=
  List.inj_on_of_nodup_map (unambiguous_of_emit he).function_names hf hg hname

def Function.ReadsAs (f : Function) (l : Language) (buffer : String) (r : Routine) : Prop :=
  readFile l buffer (l.itemText buffer (.function f)) =
    some { buffer, names := [f.name], routines := [r] }

/-- A reader declares the loaded words that its members are decoded from, each once and before its
use, and the index of the first word if there is one; a writer stores no word twice. -/
theorem emitted_loads_needed {m : Module} {l : Language} {o : Options} {out : Output}
    (he : emit m l o = .ok out) (hx : m.ExactFields) {d : TypeDef} (hd : d ∈ m.defs)
    {fields : List Field} (hb : d.body = .struct fields) :
    out.text = String.join (out.program.items.map (l.itemText out.program.buffer)) ∧
    (∃ f ∈ out.program.functions, f.name = d.name ++ "_read") ∧
    (∀ f ∈ out.program.functions, f.name = d.name ++ "_read" →
      ∃ r, f.ReadsAs l out.program.buffer r ∧ LoadsNeeded out.program.buffer d.size r) ∧
    (m.writable = true →
      (∃ f ∈ out.program.functions, f.name = d.name ++ "_write") ∧
      ∀ f ∈ out.program.functions, f.name = d.name ++ "_write" →
        ∃ r, f.ReadsAs l out.program.buffer r ∧ StoresNeeded out.program.buffer r) := by
  have hm := emittable_of_emit he
  obtain ⟨hv, -, hprog, htext⟩ := emit_eq_ok he
  obtain ⟨⟨h, hs⟩, ha⟩ := structSound_of_mem hv hx hd hb
  have hread : ∀ {f}, f ∈ out.program.functions →
      f.ReadsAs l out.program.buffer (f.routine l out.program.buffer .name) := by
    intro f hf
    rw [hprog] at hf ⊢
    obtain ⟨item, hi, hitem⟩ := List.mem_filterMap.mp hf
    cases item with
    | function g =>
      obtain rfl := Option.some.inj hitem
      exact readFile_function hm hi
    | _ => cases hitem
  have hreader : readFunction m d fields ∈ out.program.functions :=
    hprog ▸ mem_functions_of_accessor hd (readFunction_mem hb _)
  refine ⟨?_, ⟨_, hreader, rfl⟩, ?_, fun hwr => ?_⟩
  · rw [htext, hprog, render_eq_join]
  · intro f hf hname
    obtain rfl := eq_of_function_name he hf hreader hname
    exact ⟨_, hread hf, loadsNeeded_readFunction hs ha l _ _⟩
  · have hwriter : writeFunction m o.maskUnsigned d fields ∈ out.program.functions :=
      hprog ▸ mem_functions_of_accessor hd (writeFunction_mem hwr hb _)
    refine ⟨⟨_, hwriter, rfl⟩, ?_⟩
    intro f hf hname
    obtain rfl := eq_of_function_name he hf hwriter hname
    exact ⟨_, hread hf, storesNeeded_writeFunction l _ _⟩

theorem emitted_loads_needed_chain :
    ∃ out f g r w, emit chainModule .wgsl {} = .ok out ∧ f ∈ out.program.functions ∧
      f.name = "Pair_read" ∧ f.ReadsAs .wgsl "chain" r ∧ LoadsNeeded "chain" 20 r ∧
      g ∈ out.program.functions ∧ g.name = "Pair_write" ∧ g.ReadsAs .wgsl "chain" w ∧
      StoresNeeded "chain" w := by
  have hv : chainModule.validate = [] := by cbv
  have hx : chainModule.ExactFields := by decide
  obtain ⟨out, hout⟩ := @emit_ok chainModule .wgsl {} hv (by decide +kernel) rfl
  have hpair : chainModule.def? 1 = some _ := rfl
  obtain ⟨-, ⟨f, hf, hname⟩, hreads, hwr⟩ :=
    emitted_loads_needed hout hx (chainModule.mem_of_def? hpair) rfl
  obtain ⟨⟨g, hg, hname'⟩, hwrites⟩ := hwr rfl
  obtain ⟨r, hr, hloads⟩ := hreads f hf hname
  obtain ⟨w, hw, hstores⟩ := hwrites g hg hname'
  have hbuffer : out.program.buffer = "chain" := by
    rw [(emit_eq_ok hout).2.2.1]
    rfl
  rw [hbuffer] at hr hloads hw hstores
  exact ⟨out, f, g, r, w, hout, hf, hname, hr, hloads, hg, hname', hw, hstores⟩

end WordLayout.Shader
