import Mathlib
import WordLayout.Proofs.Host.Buffer

/-!
The reads of a buffer with a log of what they do on their way: each struct that they turn to, with
the byte address that they compute for it, and each word that they take from the buffer. The log
also carries what the program does not compute, the address in exact arithmetic. Without the log,
the reads are the reads themselves.
-/

namespace WordLayout.Host

inductive Event
  | enter (target : Handle) (place : Nat) (address : UInt32)
  | access (target : Handle) (place word : Nat)
  deriving DecidableEq

section nesting

inductive Nests (m : Module) : Handle → Handle → Nat → Prop
  | here (h : Handle) : Nests m h h 0
  | field {h t u : Handle} {d : TypeDef} {fields : List Field} {f : Field} {n : Nat}
      (hd : m.def? h = some d) (hb : d.body = .struct fields) (hf : f ∈ fields)
      (ht : f.ty = .inline t) (hn : Nests m t u n) : Nests m h u (f.offset.toNat + n)

inductive Visits (m : Module) (t : Handle) (place : Nat) : Event → Prop
  | enter : Visits m t place (.enter t place (UInt32.ofNat place))
  | access {d : TypeDef} {fields : List Field} {g : Group} (hd : m.def? t = some d)
      (hb : d.body = .struct fields) (hg : g ∈ Coverage.resolve fields d.size .read)
      (hraw : g.needsRaw = true) :
      Visits m t place (.access t place (UInt32.ofNat place / 4 + g.word).toNat)

variable {m : Module} {h : Handle} {d : TypeDef} {fields : List Field}
  (hd : m.def? h = some d) (hb : d.body = .struct fields)
include hd hb

theorem nests_iff {t : Handle} {n : Nat} :
    Nests m h t n ↔ (t = h ∧ n = 0) ∨ ∃ f ∈ fields, ∃ u n', f.ty = .inline u ∧ Nests m u t n' ∧
      n = f.offset.toNat + n' := by
  constructor
  · intro hn
    cases hn with
    | here => exact .inl ⟨rfl, rfl⟩
    | field hd' hb' hf ht hn =>
      obtain rfl := Option.some.inj (hd.symm.trans hd')
      obtain rfl := Body.struct.inj (hb.symm.trans hb')
      exact .inr ⟨_, hf, _, _, ht, hn, rfl⟩
  · rintro (⟨rfl, rfl⟩ | ⟨f, hf, u, n', ht, hn, rfl⟩)
    · exact .here t
    · exact .field hd hb hf ht hn

theorem visits_iff {place : Nat} {e : Event} :
    Visits m h place e ↔ e = .enter h place (UInt32.ofNat place) ∨
      ∃ g ∈ Coverage.resolve fields d.size .read, g.needsRaw = true ∧
        e = .access h place (UInt32.ofNat place / 4 + g.word).toNat := by
  constructor
  · intro he
    cases he with
    | enter => exact .inl rfl
    | access hd' hb' hg hraw =>
      obtain rfl := Option.some.inj (hd.symm.trans hd')
      obtain rfl := Body.struct.inj (hb.symm.trans hb')
      exact .inr ⟨_, hg, hraw, rfl⟩
  · rintro (rfl | ⟨g, hg, hraw, rfl⟩)
    · exact .enter
    · exact .access hd hb hg hraw

theorem visited_iff {place : Nat} {e : Event} :
    (∃ t n, Nests m h t n ∧ Visits m t (place + n) e) ↔
      Visits m h place e ∨ ∃ f ∈ fields, ∃ u, f.ty = .inline u ∧
        ∃ t n, Nests m u t n ∧ Visits m t (place + f.offset.toNat + n) e := by
  constructor
  · rintro ⟨t, n, hn, he⟩
    rcases (nests_iff hd hb).mp hn with ⟨rfl, rfl⟩ | ⟨f, hf, u, n', hu, hinner, rfl⟩
    · exact .inl he
    · rw [← Nat.add_assoc] at he
      exact .inr ⟨f, hf, u, hu, t, n', hinner, he⟩
  · rintro (he | ⟨f, hf, u, hu, t, n, hn, he⟩)
    · exact ⟨h, 0, .here h, he⟩
    · rw [Nat.add_assoc] at he
      exact ⟨t, _, .field hd hb hf hu hn, he⟩

end nesting

namespace Traced

abbrev Logged := StateT (List Event) (Except Fault)

def note (e : Event) : Logged Unit := modify (e :: ·)

def loadRaw (words : Array UInt32) (ix : UInt32) (h : Handle) (place : Nat)
    (groups : List Group) : Logged (Array UInt32) := do
  pure (← groups.mapM fun g => do
    if g.needsRaw then
      note (.access h place (ix + g.word).toNat)
      Buffer.wordAt words (ix + g.word)
    else pure 0).toArray

def decodeStruct (m : Module) (words : Array UInt32) :
    Nat → List String → Handle → UInt32 → Nat → Logged Value
  | 0, _, _, _, _ => throw .endless
  | fuel + 1, path, h, offset, place => do
    note (.enter h place offset)
    let (d, fields) ← Buffer.structDef m .read path h
    let ix ← Buffer.base words.size .read d offset
    let raw ← loadRaw words ix h place (Coverage.resolve fields d.size .read)
    let values ← fields.mapM fun f =>
      match f.ty with
      | .inline target =>
        decodeStruct m words fuel (path ++ [d.name, f.name]) target (offset + f.offset)
          (place + f.offset.toNat)
      | _ => decodeField m words raw fuel path d offset f
    pure (.struct h values)

def readStruct (b : Buffer) (h : Handle) (offset : UInt32) : Logged Value :=
  decodeStruct b.module b.words b.depth [] h offset offset.toNat

def readVariant (b : Buffer) (h : Handle) (tag offset : UInt32) : Logged Value := do
  let (d, variants) ← Buffer.unionDef b.module .read h
  let _ ← Buffer.base b.words.size .read d offset
  match ← Buffer.payloadOf .read d variants tag with
  | (name, some (at_, target)) =>
    decodeStruct b.module b.words b.depth [d.name, name] target (offset + at_)
      (offset.toNat + at_.toNat)
  | (name, none) => (Buffer.refuse .read [d.name, name] .noPayload : Except Fault Value)

def readUnion (b : Buffer) (h : Handle) (offset : UInt32) : Logged UnionValue := do
  let (d, variants) ← Buffer.unionDef b.module .read h
  let tag ← Buffer.wordAt b.words (← Buffer.base b.words.size .read d offset)
  match ← Buffer.payloadOf .read d variants tag with
  | (name, some (at_, target)) => do
    let payload ← decodeStruct b.module b.words b.depth [d.name, name] target (offset + at_)
      (offset.toNat + at_.toNat)
    pure { tag, payload := some payload }
  | (_, none) => pure { tag, payload := none }

section erasure

variable {α β : Type}

def Erases (x : Logged α) (y : Except Fault α) : Prop := ∀ log, Prod.fst <$> x.run log = y

theorem Erases.run {x : Logged α} {y : Except Fault α} (h : Erases x y) (log : List Event) {a : α}
    (hy : y = .ok a) : ∃ log', x.run log = .ok (a, log') := by
  have hrun := h log
  rw [hy] at hrun
  cases hx : x.run log with
  | error e => simp [hx] at hrun
  | ok r =>
    obtain ⟨a', log'⟩ := r
    rw [hx] at hrun
    obtain rfl : a' = a := Except.ok.inj hrun
    exact ⟨log', rfl⟩

theorem lift_ok_bind (a : α) (f : α → Logged β) :
    (liftM (Except.ok a : Except Fault α) >>= f) = f a := rfl

theorem Erases.lift (y : Except Fault α) : Erases (liftM y) y := by
  intro log
  cases y <;> rfl

theorem Erases.pure (a : α) : Erases (pure a) (.ok a) := fun _ => rfl

theorem Erases.bind {x : Logged α} {y : Except Fault α} {f : α → Logged β}
    {g : α → Except Fault β} (hx : Erases x y) (hf : ∀ a, Erases (f a) (g a)) :
    Erases (x >>= f) (y >>= g) := by
  intro log
  rw [StateT.run_bind, ← hx log]
  cases hr : x.run log with
  | error e => rfl
  | ok r => exact hf r.1 r.2

theorem Erases.note_bind {e : Event} {f : Unit → Logged α} {y : Except Fault α}
    (hf : Erases (f ()) y) : Erases (note e >>= f) y := fun log => hf (e :: log)

theorem Erases.mapM {f : α → Logged β} {g : α → Except Fault β} {xs : List α}
    (h : ∀ x ∈ xs, Erases (f x) (g x)) : Erases (xs.mapM f) (xs.mapM g) := by
  induction xs with
  | nil => exact .pure []
  | cons x xs ih =>
    rw [List.forall_mem_cons] at h
    rw [List.mapM_cons, List.mapM_cons]
    exact h.1.bind fun y => (ih h.2).bind fun ys => .pure (y :: ys)

theorem loadRaw_erases (words : Array UInt32) (ix : UInt32) (h : Handle) (place : Nat)
    (groups : List Group) :
    Erases (loadRaw words ix h place groups) (Buffer.loadRaw words ix groups) := by
  apply Erases.bind
  · apply Erases.mapM
    intro g _
    by_cases hraw : g.needsRaw = true
    · simp only [hraw, if_true]
      exact Erases.note_bind (.lift _)
    · simp only [hraw]
      exact .pure 0
  · intro raw
    exact .pure raw.toArray

theorem decodeStruct_erases (m : Module) (words : Array UInt32) (fuel : Nat) (path : List String)
    (h : Handle) (offset : UInt32) (place : Nat) :
    Erases (decodeStruct m words fuel path h offset place)
      (Buffer.decodeStruct m words fuel path h offset) := by
  induction fuel generalizing path h offset place with
  | zero => exact fun _ => rfl
  | succ fuel ih =>
    rw [decodeStruct, Buffer.decodeStruct]
    apply Erases.note_bind
    apply (Erases.lift _).bind
    rintro ⟨d, fields⟩
    apply (Erases.lift _).bind
    intro ix
    apply (loadRaw_erases words ix h place _).bind
    intro raw
    refine Erases.bind ?_ fun values => .pure _
    apply Erases.mapM
    intro f _
    cases hty : f.ty with
    | inline t => exact ih _ _ _ _
    | _ =>
      simp only [decodeField, hty]
      exact .lift _

theorem readStruct_erases (b : Buffer) (h : Handle) (offset : UInt32) :
    Erases (readStruct b h offset) (b.readStruct h offset) :=
  decodeStruct_erases b.module b.words b.depth [] h offset offset.toNat

theorem readVariant_erases (b : Buffer) (h : Handle) (tag offset : UInt32) :
    Erases (readVariant b h tag offset) (b.readVariant h tag offset) := by
  apply (Erases.lift _).bind
  rintro ⟨d, variants⟩
  apply (Erases.lift _).bind
  intro ix
  apply (Erases.lift _).bind
  rintro ⟨name, place⟩
  cases place with
  | none => exact .lift _
  | some place => exact decodeStruct_erases _ _ _ _ _ _ _

theorem readUnion_erases (b : Buffer) (h : Handle) (offset : UInt32) :
    Erases (readUnion b h offset) (b.readUnion h offset) := by
  apply (Erases.lift _).bind
  rintro ⟨d, variants⟩
  apply (Erases.lift _).bind
  intro ix
  apply (Erases.lift _).bind
  intro tag
  apply (Erases.lift _).bind
  rintro ⟨name, place⟩
  cases place with
  | none => exact .pure _
  | some place => exact (decodeStruct_erases _ _ _ _ _ _ _).bind fun _ => .pure _

end erasure

section logs

variable {α β : Type}

def Logs (x : Logged α) (P : Event → Prop) : Prop :=
  ∀ log a log', x.run log = .ok (a, log') → ∀ e, e ∈ log' ↔ e ∈ log ∨ P e

theorem Logs.congr {x : Logged α} {P Q : Event → Prop} (h : Logs x P) (hPQ : ∀ e, P e ↔ Q e) :
    Logs x Q := by
  intro log a log' hrun e
  rw [h log a log' hrun e, hPQ e]

theorem Logs.pure (a : α) : Logs (pure a) fun _ => False := by
  intro log b log' hrun e
  obtain ⟨rfl, rfl⟩ := Prod.mk.inj (Except.ok.inj hrun)
  exact (iff_of_eq (or_false _)).symm

theorem Logs.bind {x : Logged α} {f : α → Logged β} {P Q : Event → Prop} (hx : Logs x P)
    (hf : ∀ a, Logs (f a) Q) : Logs (x >>= f) fun e => P e ∨ Q e := by
  intro log b log'' hrun e
  rw [StateT.run_bind] at hrun
  obtain ⟨⟨a, log'⟩, ha, hb⟩ := bind_eq_ok_iff.mp hrun
  rw [hf a log' b log'' hb e, hx log a log' ha e, or_assoc]

theorem Logs.lift_bind {y : Except Fault α} {f : α → Logged β} {Q : Event → Prop}
    (hf : ∀ a, y = .ok a → Logs (f a) Q) : Logs (liftM y >>= f) Q := by
  intro log b log' hrun
  cases y with
  | error e => cases hrun
  | ok a => exact hf a rfl log b log' hrun

theorem Logs.lift (y : Except Fault α) : Logs (liftM y) fun _ => False := by
  rw [← bind_pure (liftM y)]
  exact Logs.lift_bind fun a _ => .pure a

theorem Logs.note_bind {e₀ : Event} {f : Unit → Logged α} {Q : Event → Prop} (hf : Logs (f ()) Q) :
    Logs (note e₀ >>= f) fun e => e = e₀ ∨ Q e := by
  intro log a log' hrun e
  rw [hf (e₀ :: log) a log' hrun e, List.mem_cons, or_comm (a := e = e₀), or_assoc]

theorem Logs.mapM {f : α → Logged β} {P : α → Event → Prop} {xs : List α}
    (h : ∀ x ∈ xs, Logs (f x) (P x)) : Logs (xs.mapM f) fun e => ∃ x ∈ xs, P x e := by
  induction xs with
  | nil => exact (Logs.pure []).congr fun e => by simp
  | cons x xs ih =>
    rw [List.forall_mem_cons] at h
    rw [List.mapM_cons]
    refine (h.1.bind fun y => (ih h.2).bind fun ys => .pure (y :: ys)).congr fun e => ?_
    simp

theorem loadRaw_logs (words : Array UInt32) (ix : UInt32) (h : Handle) (place : Nat)
    (groups : List Group) :
    Logs (loadRaw words ix h place groups) fun e =>
      ∃ g ∈ groups, g.needsRaw = true ∧ e = .access h place (ix + g.word).toNat := by
  have hgroup : ∀ g ∈ groups, Logs (if g.needsRaw then do
        note (.access h place (ix + g.word).toNat)
        Buffer.wordAt words (ix + g.word)
      else pure 0) fun e => g.needsRaw = true ∧ e = .access h place (ix + g.word).toNat := by
    intro g _
    by_cases hraw : g.needsRaw = true
    · simp only [hraw, if_true, true_and]
      exact (Logs.note_bind (.lift _)).congr fun e => by rw [or_false]
    · rw [if_neg hraw]
      exact (Logs.pure 0).congr fun e => by simp [hraw]
  exact ((Logs.mapM hgroup).bind fun raw => .pure raw.toArray).congr fun e => by rw [or_false]

end logs

theorem decodeStruct_logs (m : Module) (words : Array UInt32) (fuel : Nat) (path : List String)
    (h : Handle) (place : Nat) :
    Logs (decodeStruct m words fuel path h (UInt32.ofNat place) place) fun e =>
      ∃ t n, Nests m h t n ∧ Visits m t (place + n) e := by
  induction fuel generalizing path h place with
  | zero =>
    intro log v log' hrun
    cases hrun
  | succ fuel ih =>
    rw [decodeStruct]
    cases hdef : Buffer.structDef m .read path h with
    | error f =>
      intro log v log' hrun
      cases hrun
    | ok p =>
      obtain ⟨d, fields⟩ := p
      obtain ⟨hd, hb⟩ := structDef_eq_ok.mp hdef
      have hfields : ∀ raw : Array UInt32, Logs (fields.mapM fun f =>
            match f.ty with
            | .inline target =>
              decodeStruct m words fuel (path ++ [d.name, f.name]) target
                (UInt32.ofNat place + f.offset) (place + f.offset.toNat)
            | _ => decodeField m words raw fuel path d (UInt32.ofNat place) f)
          fun e => ∃ f ∈ fields, ∃ u, f.ty = .inline u ∧
            ∃ t n, Nests m u t n ∧ Visits m t (place + f.offset.toNat + n) e := by
        intro raw
        apply Logs.mapM
        intro f _
        cases hty : f.ty with
        | inline u =>
          have haddress : UInt32.ofNat place + f.offset = UInt32.ofNat (place + f.offset.toNat) := by
            rw [UInt32.ofNat_add, UInt32.ofNat_toNat]
          simp only [haddress]
          exact (ih _ u _).congr fun e => by simp
        | _ => exact (Logs.lift _).congr fun e => by simp
      have hsplit : ∀ e, (e = Event.enter h place (UInt32.ofNat place) ∨
            (∃ g ∈ Coverage.resolve fields d.size .read, g.needsRaw = true ∧
              e = .access h place (UInt32.ofNat place / 4 + g.word).toNat) ∨
            ∃ f ∈ fields, ∃ u, f.ty = .inline u ∧
              ∃ t n, Nests m u t n ∧ Visits m t (place + f.offset.toNat + n) e) ↔
          ∃ t n, Nests m h t n ∧ Visits m t (place + n) e := by
        intro e
        rw [visited_iff hd hb, visits_iff hd hb, or_assoc]
      refine Logs.congr (Logs.note_bind (Logs.lift_bind fun _ hp => ?_)) hsplit
      obtain rfl := Except.ok.inj hp
      refine Logs.lift_bind fun ix hix => ?_
      obtain ⟨-, rfl⟩ := base_eq_ok.mp hix
      refine (loadRaw_logs words _ h place _).bind fun raw => ?_
      exact ((hfields raw).bind fun values => .pure _).congr fun e => by rw [or_false]

end Traced

end WordLayout.Host
