import Mathlib
import WordLayout.Proofs.Host.Canonical

namespace WordLayout.Host

open Word Coverage

inductive Alike {α β : Type} (R : α → β → Prop) : Except Fault α → Except Fault β → Prop
  | ok {a : α} {a' : β} (h : R a a') : Alike R (.ok a) (.ok a')
  | refused (e : Error) : Alike R (.error (.refused e)) (.error (.refused e))

namespace Alike

variable {α β γ δ : Type} {R : α → β → Prop} {S : γ → δ → Prop}

theorem bind {x : Except Fault α} {x' : Except Fault β} {f : α → Except Fault γ}
    {f' : β → Except Fault δ} (hx : Alike R x x') (hf : ∀ a a', R a a' → Alike S (f a) (f' a')) :
    Alike S (x >>= f) (x' >>= f') := by
  cases hx with
  | ok h => exact hf _ _ h
  | refused e => exact .refused e

theorem imp {R' : α → β → Prop} {x : Except Fault α} {x' : Except Fault β} (hx : Alike R x x')
    (h : ∀ a a', R a a' → R' a a') : Alike R' x x' := by
  cases hx with
  | ok ha => exact .ok (h _ _ ha)
  | refused e => exact .refused e

theorem foldlM {step : α → γ → Except Fault α} {step' : β → γ → Except Fault β} (l : List γ)
    (hstep : ∀ c ∈ l, ∀ a a', R a a' → Alike R (step a c) (step' a' c)) {a : α} {a' : β}
    (ha : R a a') : Alike R (l.foldlM step a) (l.foldlM step' a') := by
  induction l generalizing a a' with
  | nil => exact .ok ha
  | cons c l ih =>
    rw [List.forall_mem_cons] at hstep
    rw [List.foldlM_cons, List.foldlM_cons]
    exact (hstep.1 a a' ha).bind fun b b' hb => ih hstep.2 hb

theorem eq {x x' : Except Fault α} (hx : Alike (· = ·) x x') : x = x' := by
  cases hx with
  | ok h => rw [h]
  | refused e => rfl

end Alike

def Answered {α : Type} (x : Except Fault α) : Prop :=
  (∃ a, x = .ok a) ∨ ∃ e, x = .error (.refused e)

section answers

variable {α β : Type}

theorem Alike.answered {R : α → β → Prop} {x : Except Fault α} {x' : Except Fault β}
    (h : Alike R x x') : Answered x := by
  cases h with
  | ok _ => exact .inl ⟨_, rfl⟩
  | refused e => exact .inr ⟨e, rfl⟩

theorem Answered.alike {x : Except Fault α} (h : Answered x) :
    Alike (fun a a' => a' = a ∧ x = .ok a) x x := by
  rcases h with ⟨a, rfl⟩ | ⟨e, rfl⟩
  · exact .ok ⟨rfl, rfl⟩
  · exact .refused e

theorem Answered.bind {x : Except Fault α} {f : α → Except Fault β} (hx : Answered x)
    (hf : ∀ a, x = .ok a → Answered (f a)) : Answered (x >>= f) := by
  rcases hx with ⟨a, rfl⟩ | ⟨e, rfl⟩
  · exact hf a rfl
  · exact .inr ⟨e, rfl⟩

theorem answered_refuse (direction : Direction) (path : List String) (cause : Cause) :
    Answered (Buffer.refuse direction path cause : Except Fault α) := .inr ⟨_, rfl⟩

theorem answered_ok (a : α) : Answered (.ok a) := .inl ⟨a, rfl⟩

variable (m : Module) (direction : Direction) (path : List String)

theorem answered_structDef (h : Handle) : Answered (Buffer.structDef m direction path h) := by
  unfold Buffer.structDef
  split
  · exact answered_refuse _ _ _
  · split
    · exact answered_ok _
    · exact answered_refuse _ _ _

theorem answered_unionDef (h : Handle) : Answered (Buffer.unionDef m direction h) := by
  unfold Buffer.unionDef
  split
  · exact answered_refuse _ _ _
  · split
    · exact answered_ok _
    · exact answered_refuse _ _ _

theorem answered_base (count : Nat) (d : TypeDef) (offset : UInt32) :
    Answered (Buffer.base count direction d offset) := by
  unfold Buffer.base
  split
  · exact answered_refuse _ _ _
  · split
    · exact answered_refuse _ _ _
    · exact answered_ok _

theorem answered_payloadOf (d : TypeDef) (variants : List Variant) (tag : UInt32) :
    Answered (Buffer.payloadOf direction d variants tag) := by
  unfold Buffer.payloadOf
  split
  · exact answered_refuse _ _ _
  · split
    · exact answered_ok _
    · exact answered_refuse _ _ _
    · exact answered_ok _
    · exact answered_ok _

theorem answered_checkPayload (target : Option Handle)
    (payload : Option (Handle × List Value)) :
    Answered (Buffer.checkPayload m path target payload) := by
  unfold Buffer.checkPayload
  split
  · exact answered_ok _
  · exact answered_refuse _ _ _
  · exact answered_refuse _ _ _
  · split
    · exact answered_ok _
    · exact answered_refuse _ _ _

theorem answered_encodeScalar (offset : UInt32) (kind : ScalarKind) (v : Value) :
    Answered (Buffer.encodeScalar path offset kind v) := by
  unfold Buffer.encodeScalar
  split
  · exact answered_ok _
  · exact answered_refuse _ _ _

theorem answered_encodeLeaf {n : Nat} {f : Field} {k : ScalarKind} {c lane : Nat}
    (hl : f.ty.leaf? = some (k, c)) (hlane : lane < c) (v : Value) :
    Answered (Buffer.encodeLeaf path (leafPiece n f k lane) f.ty v) := by
  cases hty : f.ty with
  | scalar k' => exact answered_encodeScalar _ _ _ _
  | vector k' lanes =>
    obtain ⟨rfl, rfl⟩ : k' = k ∧ lanes.toNat = c := by simpa [hty, Ty.leaf?] using hl
    cases v with
    | vector vs =>
      by_cases hlen : vs.length = lanes.toNat
      · have hpiece : (leafPiece n f k' lane).lane = some lane := by simp [leafPiece, hty]
        have hlane' : lane < vs.length := by omega
        simp only [Buffer.encodeLeaf, hlen, if_true, hpiece, Option.bind_some,
          List.getElem?_eq_getElem hlane']
        exact answered_encodeScalar _ _ _ _
      · simp only [Buffer.encodeLeaf, hlen, if_false]
        exact answered_refuse _ _ _
    | _ => exact answered_refuse _ _ _
  | ref t => cases v <;> first | exact answered_ok _ | exact answered_refuse _ _ _
  | inline t => exact answered_ok _
  | missing => exact answered_ok _

end answers

section encoding

variable {m : Module} (hm : m.WellFormed) {path : List String} {offset : UInt32} {h : Handle}
  {d : TypeDef} {fields : List Field} {values : List Value} (hd : m.def? h = some d)
  (hb : d.body = .struct fields)
include hm hd hb

omit hm hd hb in
theorem encodePiece_alike (hlen : values.length = fields.length) {p : Piece}
    (hp : ScalarPiece fields p) {before before' : UInt32 × Array UInt32}
    (hword : before.1 = before'.1) :
    Alike (fun s s' => s.1 = s'.1 ∧ s.2 = before.2 ∧ s'.2 = before'.2)
      (encodePiece m path offset fields values before p)
      (encodePiece m path offset fields values before' p) := by
  obtain ⟨n, f, k, c, lane, hf, hl, hlane, rfl⟩ := hp
  obtain ⟨hn, -⟩ := List.getElem?_eq_some_iff.mp hf
  have hv := List.getElem?_eq_getElem (hlen ▸ hn)
  rw [encodePiece_leaf hf hl hv, encodePiece_leaf hf hl hv]
  refine (answered_encodeLeaf _ hl hlane _).alike.bind ?_
  rintro x _ ⟨rfl, -⟩
  exact .ok ⟨by rw [hword], rfl, rfl⟩

omit hm hd hb in
theorem encodePiece_nested_alike (R : Array UInt32 → Array UInt32 → Prop)
    (hlen : values.length = fields.length) {n : Nat} {f : Field} {t : Handle}
    (hf : fields[n]? = some f) (ht : f.ty = .inline t) {before before' : UInt32 × Array UInt32}
    (hnested : ∀ inner, Alike R
      (Buffer.encodeStruct m (path ++ [f.name]) before.2 (offset + f.offset) t inner)
      (Buffer.encodeStruct m (path ++ [f.name]) before'.2 (offset + f.offset) t inner)) :
    Alike (fun s s' => R s.2 s'.2)
      (encodePiece m path offset fields values before (nestedPiece n f))
      (encodePiece m path offset fields values before' (nestedPiece n f)) := by
  obtain ⟨hn, -⟩ := List.getElem?_eq_some_iff.mp hf
  have hv := List.getElem?_eq_getElem (hlen ▸ hn)
  have hfield : (nestedPiece n f).field = n := rfl
  simp only [encodePiece, hfield, hf, hv, ht]
  cases values[n] with
  | struct given inner =>
    by_cases hg : given = t
    · subst hg
      simp only [if_true]
      exact (hnested inner).bind fun s s' hs => .ok hs
    · simp only [hg, if_false]
      exact .refused _
  | _ => exact .refused _

theorem encodeGroup_alike (hlen : values.length = fields.length) {window window' : Array UInt32}
    (hsize : window'.size = window.size) (hin : Inside window.size d.size offset) {g : Group}
    (hg : g ∈ resolve fields d.size .write)
    (hnested : ∀ (n : Nat) (f : Field) (t : Handle) (inner : List Value), fields[n]? = some f →
      f.ty = .inline t →
      Alike (fun s s' => s.size = window.size ∧ s'.size = window.size)
        (Buffer.encodeStruct m (path ++ [f.name]) window (offset + f.offset) t inner)
        (Buffer.encodeStruct m (path ++ [f.name]) window' (offset + f.offset) t inner)) :
    Alike (fun s s' => s.size = window.size ∧ s'.size = window.size)
      (encodeGroup m path offset fields values window g)
      (encodeGroup m path offset fields values window' g) := by
  rcases write_group_cases hm hd hb hg with ⟨hraw, hps⟩ | ⟨n, f, t, hf, ht, hp⟩ | hnil
  · obtain ⟨hj, hlt⟩ := groupWord_inside hm hd hb hin hg hraw
    have hpieces : Alike (fun s s' => s.1 = s'.1 ∧ s.2 = window ∧ s'.2 = window')
        (g.pieces.foldlM (encodePiece m path offset fields values) (0, window))
        (g.pieces.foldlM (encodePiece m path offset fields values) (0, window')) := by
      apply Alike.foldlM
      · rintro p hp ⟨w, _⟩ ⟨w', _⟩ ⟨hword, rfl, rfl⟩
        exact encodePiece_alike hlen (hps p hp) hword
      · exact ⟨rfl, rfl, rfl⟩
    refine hpieces.bind ?_
    rintro ⟨w, _⟩ ⟨_, _⟩ ⟨rfl, rfl, rfl⟩
    simp only [hraw, if_true, Buffer.storeWord, hj, hsize, hlt]
    exact .ok ⟨by simp, by simp [hsize]⟩
  · have hpiece : Alike (fun s s' => s.2.size = window.size ∧ s'.2.size = window.size)
        (encodePiece m path offset fields values (0, window) (nestedPiece n f))
        (encodePiece m path offset fields values (0, window') (nestedPiece n f)) :=
      encodePiece_nested_alike (fun s s' => s.size = window.size ∧ s'.size = window.size) hlen hf
        ht fun inner => hnested n f t inner hf ht
    have hraw : g.needsRaw = false := by simp [Group.needsRaw, hp, nestedPiece, Piece.isRaw]
    simp only [encodeGroup, hp, List.foldlM_cons, List.foldlM_nil, bind_pure, hraw]
    exact hpiece.bind fun s s' hs => .ok hs
  · rw [encodeGroup_nil hnil, encodeGroup_nil hnil]
    exact .ok ⟨rfl, hsize⟩

theorem encodeStruct_alike (path : List String) (values : List Value)
    {window window' : Array UInt32} (hsize : window'.size = window.size)
    (hw : window.size ≤ 2 ^ 30) (hin : Inside window.size d.size offset) :
    Alike (fun s s' => s.size = window.size ∧ s'.size = window.size)
      (Buffer.encodeStruct m path window offset h values)
      (Buffer.encodeStruct m path window' offset h values) := by
  -- by induction on the handle, as nested structs have smaller ones
  induction hn : h.toNat using Nat.strong_induction_on
    generalizing path offset h d fields values window window' with
  | _ n ih =>
    rw [encodeStruct_eq hd hb, encodeStruct_eq hd hb]
    by_cases hlen : values.length = fields.length
    · rw [if_pos hlen, if_pos hlen]
      apply Alike.foldlM
      · rintro g hg s s' ⟨hs, hs'⟩
        have halike : Alike (fun t t' => t.size = s.size ∧ t'.size = s.size)
            (encodeGroup m (path ++ [d.name]) offset fields values s g)
            (encodeGroup m (path ++ [d.name]) offset fields values s' g) := by
          apply encodeGroup_alike hm hd hb hlen (hs'.trans hs.symm) (hs ▸ hin) hg
          intro n f t inner hf ht
          have hmemf := List.mem_of_getElem? hf
          obtain ⟨e, efields, hte, hbe, -, hlt, -⟩ := hm.inline_target hd hb hmemf ht
          obtain ⟨hine, -⟩ := Inside.nested hm hd hb hmemf ht hte hw hin
          exact ih t.toNat (hn ▸ UInt32.lt_iff_toNat_lt.mp hlt) hte hbe _ inner
            (hs'.trans hs.symm) (hs ▸ hw) (hs ▸ hine) rfl
        rwa [hs] at halike
      · exact ⟨rfl, hsize⟩
    · rw [if_neg hlen, if_neg hlen]
      exact .refused _

end encoding

section writing

variable {b b' : Buffer} (hm : b.module.WellFormed) (hmod : b'.module = b.module)
  (hsize : b'.words.size = b.words.size) {h : Handle} {offset : UInt32}
include hm hmod hsize

omit hm hmod in
theorem window_size_eq {d : TypeDef} (hin : Inside b.words.size d.size offset) :
    (Buffer.window b'.words (offset / 4) d).size = (Buffer.window b.words (offset / 4) d).size := by
  have hwin := (window_inside hin).2.1
  rw [← hsize] at hin
  rw [hwin, (window_inside hin).2.1]

theorem writeStruct_alike (values : List Value) :
    Alike (fun _ _ => True) (b.writeStruct offset h values) (b'.writeStruct offset h values) := by
  unfold Buffer.writeStruct
  rw [hmod, hsize]
  refine (answered_structDef _ _ _ h).alike.bind ?_
  rintro ⟨d, fields⟩ _ ⟨rfl, hdef⟩
  obtain ⟨hd, hb⟩ := structDef_eq_ok.mp hdef
  refine (answered_base _ _ d offset).alike.bind ?_
  rintro ix _ ⟨rfl, hbase⟩
  obtain ⟨hin, rfl⟩ := base_eq_ok.mp hbase
  have hwin := (window_inside hin).2.1
  have hlt := d.size.toNat_lt
  refine (encodeStruct_alike hm hd hb [] values (window_size_eq hsize hin) ?_ ?_).bind ?_
  · omega
  · exact ⟨rfl, by rw [hwin]; exact (Nat.zero_add _).le⟩
  · intro s s' _
    exact .ok trivial

theorem writeVariant_alike (tag : UInt32) (payload : Option (Handle × List Value)) :
    Alike (fun _ _ => True) (b.writeVariant h tag offset payload)
      (b'.writeVariant h tag offset payload) := by
  unfold Buffer.writeVariant
  rw [hmod, hsize]
  refine (answered_unionDef _ _ h).alike.bind ?_
  rintro ⟨d, variants⟩ _ ⟨rfl, hdef⟩
  obtain ⟨hd, hb⟩ := unionDef_eq_ok.mp hdef
  refine (answered_base _ _ d offset).alike.bind ?_
  rintro ix _ ⟨rfl, hbase⟩
  obtain ⟨hin, rfl⟩ := base_eq_ok.mp hbase
  refine (answered_payloadOf _ d variants tag).alike.bind ?_
  rintro ⟨name, place⟩ _ ⟨rfl, hpay⟩
  obtain ⟨v, hv, -, hplace⟩ := payloadOf_eq_ok.mp hpay
  refine (answered_checkPayload _ _ _ payload).alike.bind ?_
  rintro ⟨⟩ _ ⟨rfl, hcheck⟩
  have htarget := checkPayload_eq_ok.mp hcheck
  have hs := hm.union hd hb
  have hin' : Inside b'.words.size d.size offset := by rwa [hsize]
  rw [(storeTag_window tag hin hs.room).1, (storeTag_window tag hin' hs.room).1, ok_bind, ok_bind]
  cases place with
  | none =>
    cases payload with
    | none => exact .ok trivial
    | some p => simp at htarget
  | some place =>
    obtain ⟨at_, t⟩ := place
    cases payload with
    | none => simp at htarget
    | some p =>
      obtain ⟨given, values⟩ := p
      obtain rfl : given = t := by simpa using htarget
      have hps := hplace.sound (List.mem_of_getElem? hv) hs
      obtain ⟨e, fields, he, hbe, hine⟩ := payload_inside_window tag hm hin hps
      have hwin := (window_inside hin).2.1
      have hlt := d.size.toNat_lt
      refine (encodeStruct_alike hm he hbe _ values ?_ ?_ hine).bind fun s s' _ => .ok trivial
      · simpa using window_size_eq hsize hin
      · simp only [Array.set!_eq_setIfInBounds, Array.size_setIfInBounds]
        omega

end writing

section reading

variable {b b' : Buffer} (hm : b.module.WellFormed) (hw : b.words.size ≤ 2 ^ 30)
  (hmod : b'.module = b.module) (hsize : b'.words.size = b.words.size) {h : Handle}
  {offset : UInt32}

def SameAt (b b' : Buffer) (h : Handle) (offset : UInt32) : Prop :=
  ∀ d, b.module.def? h = some d → Inside b.words.size d.size offset →
    ∀ j, InWindow d offset.toNat j → b'.words.getD j 0 = b.words.getD j 0

theorem SameAt.refl (b : Buffer) (h : Handle) (offset : UInt32) : SameAt b b h offset :=
  fun _ _ _ _ _ => rfl

theorem decodeStruct_checked (m : Module) (words : Array UInt32) (fuel : Nat) (path : List String)
    (h : Handle) (offset : UInt32) :
    Buffer.decodeStruct m words (fuel + 1) path h offset =
      Buffer.structDef m .read path h >>= fun p => Buffer.base words.size .read p.1 offset >>=
        fun _ => Buffer.decodeStruct m words (fuel + 1) path h offset := by
  rw [Buffer.decodeStruct]
  cases Buffer.structDef m .read path h with
  | error e => rfl
  | ok p =>
    obtain ⟨d, fields⟩ := p
    simp only [ok_bind]
    cases Buffer.base words.size .read d offset with
    | error e => rfl
    | ok ix => rfl

include hm hw hmod hsize

omit hmod in
theorem decodeStruct_alike {fuel : Nat} {path : List String} {d : TypeDef} {fields : List Field}
    (hd : b.module.def? h = some d) (hb : d.body = .struct fields) (hfuel : h.toNat < fuel)
    (hin : Inside b.words.size d.size offset)
    (hsame : ∀ j, InWindow d offset.toNat j → b'.words.getD j 0 = b.words.getD j 0) :
    Alike (fun v v' => v = v' ∧ ∃ values, v = .struct h values)
      (Buffer.decodeStruct b.module b.words fuel path h offset)
      (Buffer.decodeStruct b.module b'.words fuel path h offset) := by
  obtain ⟨values, hv⟩ := exists_holds hm (bitsOf b.words) hd hb offset.toNat
  have hv' : Holds b.module (bitsOf b'.words) (.inline h) offset.toNat (.struct h values) := by
    refine hv.congr fun c hc => ?_
    have hj := Touches.inWindow hm hd hin.1 ⟨c, hc, rfl⟩
    rw [bitsOf, bitsOf, hsame _ hj]
  rw [decodeStruct_of_holds hm hw hd hb hfuel hin hv,
    decodeStruct_of_holds hm (hsize ▸ hw) hd hb hfuel (hsize ▸ hin) hv']
  exact .ok ⟨rfl, values, rfl⟩

theorem readStruct_alike (hsame : SameAt b b' h offset) :
    Alike (· = ·) (b.readStruct h offset) (b'.readStruct h offset) := by
  have hdepth : b'.depth = b.depth := by rw [Buffer.depth, Buffer.depth, hmod, hsize]
  rw [Buffer.readStruct, Buffer.readStruct, hmod, hdepth, Buffer.depth, decodeStruct_checked,
    decodeStruct_checked b.module b'.words, hsize]
  refine (answered_structDef _ _ _ h).alike.bind ?_
  rintro ⟨d, fields⟩ _ ⟨rfl, hdef⟩
  obtain ⟨hd, hb⟩ := structDef_eq_ok.mp hdef
  refine (answered_base _ _ d offset).alike.bind ?_
  rintro ix _ ⟨rfl, hbase⟩
  obtain ⟨hin, rfl⟩ := base_eq_ok.mp hbase
  exact (decodeStruct_alike hm hw hsize hd hb (lt_depth hd) hin (hsame d hd hin)).imp
    fun _ _ hv => hv.1

omit hm hw hmod hsize in
theorem PayloadSound.inWindow {m : Module} {d e : TypeDef} {at_ : UInt32} {t : Handle}
    (hps : PayloadSound m h d.size at_ t) (he : m.def? t = some e) {a j : Nat} (ha : a % 4 = 0)
    (hj : InWindow e (a + at_.toNat) j) : InWindow d a j := by
  have hstop := hps.stop_le
  rw [show m.sizeOf (.inline t) = e.size by simp [Module.sizeOf, he]] at hstop
  have hat := hps.aligned
  obtain ⟨hlo, hhi⟩ := hj
  constructor <;> omega

section unions

variable {d : TypeDef} {variants : List Variant} (hd : b.module.def? h = some d)
  (hb : d.body = .union variants) (hin : Inside b.words.size d.size offset)
  (hsame : SameAt b b' h offset)
include hd hb hin hsame

omit hw in
theorem wordAt_alike :
    Alike (· = ·) (Buffer.wordAt b.words (offset / 4)) (Buffer.wordAt b'.words (offset / 4)) := by
  have htag := wordAt_tag hm hd hb hin
  have htag' := wordAt_tag (hmod ▸ hm) (hmod ▸ hd) hb (hsize ▸ hin)
  rw [htag, htag']
  refine .ok (hsame d hd hin _ ?_).symm
  have hroom := (hm.union hd hb).room
  exact ⟨le_rfl, by omega⟩

omit hmod in
theorem decodePayload_alike {path : List String} {v : Variant} {at_ : UInt32} {t : Handle}
    (hv : v ∈ variants) (hp : PayloadPlace v.payload (some (at_, t))) :
    Alike (· = ·)
      (Buffer.decodeStruct b.module b.words b.depth path t (offset + at_))
      (Buffer.decodeStruct b.module b'.words b.depth path t (offset + at_)) := by
  have hps := hp.sound hv (hm.union hd hb)
  obtain ⟨e, fields, he, hbe, hine, hadd⟩ := PayloadSound.target hm hps hw hin
  apply (decodeStruct_alike hm hw hsize he hbe (lt_depth he) hine ?_).imp fun _ _ hv => hv.1
  intro j hj
  rw [hadd] at hj
  exact hsame d hd hin j (PayloadSound.inWindow hps he hin.1 hj)

end unions

omit hw in
theorem tag_alike (hsame : SameAt b b' h offset) :
    Alike (· = ·) (b.tag h offset) (b'.tag h offset) := by
  unfold Buffer.tag
  rw [hmod, hsize]
  refine (answered_unionDef _ _ h).alike.bind ?_
  rintro ⟨d, variants⟩ _ ⟨rfl, hdef⟩
  obtain ⟨hd, hb⟩ := unionDef_eq_ok.mp hdef
  refine (answered_base _ _ d offset).alike.bind ?_
  rintro ix _ ⟨rfl, hbase⟩
  obtain ⟨hin, rfl⟩ := base_eq_ok.mp hbase
  exact wordAt_alike hm hmod hsize hd hb hin hsame

theorem readVariant_alike (tag : UInt32) (hsame : SameAt b b' h offset) :
    Alike (· = ·) (b.readVariant h tag offset) (b'.readVariant h tag offset) := by
  have hdepth : b'.depth = b.depth := by rw [Buffer.depth, Buffer.depth, hmod, hsize]
  unfold Buffer.readVariant
  rw [hmod, hsize, hdepth]
  refine (answered_unionDef _ _ h).alike.bind ?_
  rintro ⟨d, variants⟩ _ ⟨rfl, hdef⟩
  obtain ⟨hd, hb⟩ := unionDef_eq_ok.mp hdef
  refine (answered_base _ _ d offset).alike.bind ?_
  rintro ix _ ⟨rfl, hbase⟩
  obtain ⟨hin, rfl⟩ := base_eq_ok.mp hbase
  refine (answered_payloadOf _ d variants tag).alike.bind ?_
  rintro ⟨name, place⟩ _ ⟨rfl, hpay⟩
  obtain ⟨v, hv, -, hplace⟩ := payloadOf_eq_ok.mp hpay
  cases place with
  | none => exact .refused _
  | some place =>
    exact decodePayload_alike hm hw hsize hd hb hin hsame (List.mem_of_getElem? hv) hplace

theorem readUnion_alike (hsame : SameAt b b' h offset) :
    Alike (· = ·) (b.readUnion h offset) (b'.readUnion h offset) := by
  have hdepth : b'.depth = b.depth := by rw [Buffer.depth, Buffer.depth, hmod, hsize]
  unfold Buffer.readUnion
  rw [hmod, hsize, hdepth]
  refine (answered_unionDef _ _ h).alike.bind ?_
  rintro ⟨d, variants⟩ _ ⟨rfl, hdef⟩
  obtain ⟨hd, hb⟩ := unionDef_eq_ok.mp hdef
  refine (answered_base _ _ d offset).alike.bind ?_
  rintro ix _ ⟨rfl, hbase⟩
  obtain ⟨hin, rfl⟩ := base_eq_ok.mp hbase
  refine (wordAt_alike hm hmod hsize hd hb hin hsame).bind ?_
  rintro tag _ rfl
  refine (answered_payloadOf _ d variants tag).alike.bind ?_
  rintro ⟨name, place⟩ _ ⟨rfl, hpay⟩
  obtain ⟨v, hv, -, hplace⟩ := payloadOf_eq_ok.mp hpay
  cases place with
  | none => exact .ok rfl
  | some place =>
    refine (decodePayload_alike hm hw hsize hd hb hin hsame (List.mem_of_getElem? hv)
      hplace).bind ?_
    rintro payload _ rfl
    exact .ok rfl

end reading

end WordLayout.Host
