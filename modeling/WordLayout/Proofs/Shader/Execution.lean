import Mathlib
import WordLayout.Word
import WordLayout.Proofs.Sequence
import WordLayout.Proofs.Shader.Value

/-!
Running a program as a tree, before any language prints it. The meaning of what is printed is in
`Listing`; `Listing.follows_run` takes a run of the tree to a run of the text.
-/

namespace WordLayout.Shader

structure Frame where
  offset : UInt32
  index : Option UInt32 := none
  ix : Option UInt32 := none
  raws : List (UInt32 × UInt32) := []
  s : Option Local := none

def Expr.isPrimary : Expr → Bool
  | .mask .. | .shiftLeft .. | .shiftRight .. => false
  | _ => true

def Expr.eval (fr : Frame) : Expr → Option Value
  | .raw word => (fr.raws.lookup word).map .uint
  | .member name none => do (← fr.s).get? name
  | .member name (some lane) => do (← (← fr.s).get? name).member? (laneName lane)
  | .offset name => do (← (← fr.s).get? name).member? "offset"
  | .mask x bits => do
    match ← x.eval fr, x.isPrimary with
    | .uint a, true => some (.uint (a &&& bits))
    | _, _ => none
  | .shiftLeft x n => do
    match ← x.eval fr, x.isPrimary && n < 32 with
    | .uint a, true => some (.uint (a <<< n))
    | _, _ => none
  | .shiftRight x n => do
    match ← x.eval fr, x.isPrimary && n < 32 with
    | .uint a, true => some (.uint (a >>> n))
    | .int a, true => some (.int (Word.shiftRightSigned a n.toNat))
    | _, _ => none
  | .group x => x.eval fr
  | .floatFromBits x => do
    match ← x.eval fr with
    | .uint a => some (.float a)
    | _ => none
  | .floatToBits x => do
    match ← x.eval fr with
    | .float a => some (.uint a)
    | _ => none
  | .intFromBits x => do
    match ← x.eval fr with
    | .uint a => some (.int a)
    | _ => none
  | .intToBits x => do
    match ← x.eval fr with
    | .int a => some (.uint a)
    | _ => none

def Expr.part (fr : Frame) (x : Expr) : Option UInt32 := do
  match ← x.eval fr, x.isPrimary with
  | .uint a, true => some a
  | _, _ => none

abbrev Call :=
  String → String → UInt32 → Option Value → Array UInt32 → Option (Array UInt32 × Option Value)

def Source.eval (call : Call) (fr : Frame) (words : Array UInt32) :
    Source → Option (Array UInt32 × Value)
  | .scalar x => do some (words, ← x.eval fr)
  | .vector type lanes => do some (words, ← type.construct (← lanes.mapM (Expr.eval fr)))
  | .nested name distance => do
    match ← call (name ++ "_read") name (fr.offset + distance) none words with
    | (words, some v) => some (words, v)
    | (_, none) => none
  | .handle name x => do
    match ← x.eval fr with
    | .uint offset => some (words, .handle name offset)
    | _ => none

def Argument.eval (fr : Frame) : Argument → Option Value
  | .whole => do (← fr.s).value?
  | .member name => do (← fr.s).get? name

namespace Program

def members? (p : Program) (name : String) : Option (List (String × TypeName)) :=
  p.items.findSome? fun
    | .struct n members => if n = name then some members else none
    | _ => none

def constant? (p : Program) (name : String) : Option UInt32 :=
  p.items.findSome? fun
    | .constant n value => if n = name then some value else none
    | _ => none

end Program

inductive Outcome
  | next (fr : Frame) (words : Array UInt32)
  | returned (v : Value) (words : Array UInt32)

def Stmt.exec (p : Program) (call : Call) (fr : Frame) (words : Array UInt32) :
    Stmt → Option Outcome
  | .base =>
    if fr.ix.isSome then none
    else some (.next { fr with ix := some (fr.offset >>> 2) } words)
  | .load w => do
    let x ← words[((← fr.ix) + w).toNat]?
    if (fr.raws.lookup w).isSome then none
    else some (.next { fr with raws := (w, x) :: fr.raws } words)
  | .declare name => do
    let members := (← p.members? name).map fun q => (q.1, none)
    if fr.s.isSome then none else some (.next { fr with s := some ⟨name, members⟩ } words)
  | .assign member source => do
    let s ← fr.s
    let type ← (← p.members? s.type).lookup member
    let (words, v) ← source.eval call fr words
    if type.admits v then some (.next { fr with s := some (s.set member v) } words) else none
  | .returnStruct => do some (.returned (← (← fr.s).value?) words)
  | .store w parts => do
    if parts.isEmpty then none
    else
      let bits ← parts.mapM (Expr.part fr)
      let words ← storeAt words ((← fr.ix) + w) (bits.foldl (· ||| ·) 0)
      some (.next fr words)
  | .write name distance argument => do
    match ← call (name ++ "_write") name (fr.offset + distance)
      (some (← argument.eval fr)) words with
    | (words, none) => some (.next fr words)
    | (_, some _) => none
  | .returnRead name distance => do
    match ← call (name ++ "_read") name (fr.offset + distance) none words with
    | (words, some v) => some (.returned v words)
    | (_, none) => none
  | .returnTag => do some (.returned (.uint (← words[(fr.offset >>> 2).toNat]?)) words)
  | .storeTag constant => do
    let words ← storeAt words (fr.offset >>> 2) (← p.constant? constant)
    some (.next fr words)
  | .returnElement name => do
    let size ← p.constant? (name ++ "_size")
    some (.returned (.handle name (fr.offset + (← fr.index) * size)) words)

def execBody (p : Program) (call : Call) : List Stmt → Frame → Array UInt32 →
    Option (Array UInt32 × Option Value)
  | [], _, words => some (words, none)
  | stmt :: rest, fr, words =>
    match stmt.exec p call fr words with
    | some (.next fr words) => execBody p call rest fr words
    | some (.returned v words) => some (words, some v)
    | none => none

namespace Function

def enter (f : Function) (offset : UInt32) (extra : Option Value) : Option Frame :=
  match f.extra, extra with
  | .none, none => some { offset }
  | .index, some (.uint i) => some { offset, index := some i }
  | .struct name, some (.struct type members) =>
    if type = name then
      some { offset, s := some ⟨type, members.map fun q => (q.1, some q.2)⟩ }
    else none
  | _, _ => none

def returns (f : Function) : Option Value → Bool
  | none => f.result.isNone
  | some v => f.result.any (·.admits v)

def run (p : Program) (call : Call) (f : Function) (owner : String) (offset : UInt32)
    (extra : Option Value) (words : Array UInt32) : Option (Array UInt32 × Option Value) :=
  if owner = f.owner then do
    let (words, v) ← execBody p call f.body (← f.enter offset extra) words
    if f.returns v then some (words, v) else none
  else none

end Function

namespace Program

def call (p : Program) : List Function → Call
  | [], _, _, _, _, _ => none
  | f :: earlier, name, owner, offset, extra, words =>
    if f.name = name then f.run p (p.call earlier) owner offset extra words
    else p.call earlier name owner offset extra words

def run (p : Program) : Call := p.call p.functions.reverse

end Program

section lemmas

variable {p : Program} {call : Call}

def Next (p : Program) (call : Call) (stmt : Stmt) (s t : Frame × Array UInt32) : Prop :=
  stmt.exec p call s.1 s.2 = some (.next t.1 t.2)

theorem execBody_of_run {stmts rest : List Stmt} {s t : Frame × Array UInt32}
    (h : Run (Next p call) stmts s t) :
    execBody p call (stmts ++ rest) s.1 s.2 = execBody p call rest t.1 t.2 := by
  induction h with
  | nil s => rfl
  | cons ha _ ih =>
    rw [List.cons_append, execBody, ha]
    exact ih

theorem execBody_eq_some {stmts : List Stmt} {s t : Frame × Array UInt32}
    (h : Run (Next p call) stmts s t) : execBody p call stmts s.1 s.2 = some (t.2, none) := by
  have hend := @execBody_of_run p call stmts [] s t h
  rwa [List.append_nil] at hend

theorem run_flatMap {α : Type} {stmts : α → List Stmt} {R : α → Array UInt32 → Array UInt32 → Prop}
    {fr : Frame} {count : Nat} {l : List α}
    (hstep : ∀ a ∈ l, ∀ words, words.size = count → ∃ words',
      Run (Next p call) (stmts a) (fr, words) (fr, words') ∧ R a words words' ∧
        words'.size = count) {words : Array UInt32} (hsize : words.size = count) :
    ∃ words', Run (Next p call) (l.flatMap stmts) (fr, words) (fr, words') ∧
      Run R l words words' := by
  induction l generalizing words with
  | nil => exact ⟨words, .nil _, .nil _⟩
  | cons a l ih =>
    rw [List.forall_mem_cons] at hstep
    obtain ⟨mid, hrun, hR, hmid⟩ := hstep.1 words hsize
    obtain ⟨words', hruns, hRs⟩ := ih hstep.2 hmid
    exact ⟨words', hrun.append hruns, .cons hR hRs⟩

theorem value?_of_assigned (type : String) (members : List (String × Value)) :
    Local.value? ⟨type, members.map fun q => (q.1, some q.2)⟩ = some (.struct type members) := by
  have hmap : (members.map fun q => (q.1, some q.2)).mapM
      (fun p : String × Option Value => p.2.map (p.1, ·)) = some members := by
    rw [mapM_eq_some_iff, List.forall₂_map_left_iff, List.forall₂_same]
    intro q _
    rfl
  rw [Local.value?, hmap]
  rfl

theorem Function.run_eq_some {f : Function} {offset : UInt32} {extra : Option Value} {fr : Frame}
    {words words' : Array UInt32} {v : Option Value} (henter : f.enter offset extra = some fr)
    (hbody : execBody p call f.body fr words = some (words', v)) (hv : f.returns v = true) :
    f.run p call f.owner offset extra words = some (words', v) := by
  simp only [run, if_true, henter, hbody, hv, Option.bind_eq_bind, Option.bind_some]

theorem Program.call_append {gs fs : List Function} {f : Function}
    (hgs : ∀ g ∈ gs, g.name ≠ f.name) (owner : String) (offset : UInt32)
    (extra : Option Value) (words : Array UInt32) :
    p.call (gs ++ f :: fs) f.name owner offset extra words =
      f.run p (p.call fs) owner offset extra words := by
  induction gs with
  | nil => rw [List.nil_append, call, if_pos rfl]
  | cons g gs ih =>
    rw [List.forall_mem_cons] at hgs
    rw [List.cons_append, call, if_neg hgs.1, ih hgs.2]

theorem Program.call_eq {fs earlier later : List Function} {f : Function}
    (hfs : fs = earlier ++ f :: later) (hnames : (fs.map (·.name)).Nodup) (owner : String)
    (offset : UInt32) (extra : Option Value) (words : Array UInt32) :
    p.call fs.reverse f.name owner offset extra words =
      f.run p (p.call earlier.reverse) owner offset extra words := by
  have hlater : ∀ g ∈ later.reverse, g.name ≠ f.name := by
    intro g hg heq
    rw [hfs, List.map_append, List.map_cons] at hnames
    have hnot := (List.nodup_cons.mp (List.nodup_append.mp hnames).2.1).1
    exact hnot (heq ▸ List.mem_map_of_mem (List.mem_reverse.mp hg))
  rw [hfs, List.reverse_append, List.reverse_cons, List.append_assoc]
  exact call_append hlater owner offset extra words

end lemmas

end WordLayout.Shader
