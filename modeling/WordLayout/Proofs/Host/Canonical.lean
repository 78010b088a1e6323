import Mathlib
import WordLayout.Proofs.Host.Frame

namespace WordLayout.Host

open Word Coverage Validation

section images

variable {m : Module} {ty : Ty} {a c : Nat} {v : Value}

theorem WellTyped.exists_image (hv : WellTyped m ty v) (hc : Covers m ty a c) :
    ∃ x, Image m ty a v c x := by
  induction hc generalizing v with
  | @leaf ty k n lane i a hl hn hi =>
    have hlanes := (wellTyped_leaf_iff hl (by omega)).mp hv lane hn
    obtain ⟨x, hx⟩ := Option.isSome_iff_exists.mp hlanes
    exact ⟨bit x i, .leaf hl hn hx hi⟩
  | @struct t d fields f a c hd hb hf hc ih =>
    obtain ⟨values, rfl, hlen, hall⟩ := (wellTyped_struct_iff hd hb).mp hv
    obtain ⟨i, hi, rfl⟩ := List.getElem_of_mem hf
    have hfi := List.getElem?_eq_getElem hi
    have hvi := List.getElem?_eq_getElem (hlen ▸ hi)
    obtain ⟨x, hx⟩ := ih (hall i _ _ hfi hvi)
    exact ⟨x, .struct hd hb hfi hvi hx⟩

theorem Holds.congr {mem mem' : Nat → Bool} (h : Holds m mem ty a v)
    (hmem : ∀ c, Covers m ty a c → mem c = mem' c) : Holds m mem' ty a v := by
  refine ⟨h.1, fun c x hx => ?_⟩
  rw [← hmem c hx.covers]
  exact h.2 c x hx

theorem Holds.agree {mem mem' : Nat → Bool} (h : Holds m mem ty a v) (h' : Holds m mem' ty a v)
    (hc : Covers m ty a c) : mem c = mem' c := by
  obtain ⟨x, hx⟩ := h.1.exists_image hc
  rw [h.2 c x hx, h'.2 c x hx]

end images

def Slack (m : Module) (h : Handle) (a c : Nat) : Prop :=
  Touches m (.inline h) a (c / 32) ∧ ¬ Covers m (.inline h) a c

/-- The two contents are the same but for slack bits, which are zero in the second. -/
structure Canonicalised (m : Module) (h : Handle) (a : Nat) (old new : Array UInt32) : Prop where
  size_eq : new.size = old.size
  cleared : ∀ c, Slack m h a c → bitsOf new c = false
  kept : ∀ c, ¬ Slack m h a c → bitsOf new c = bitsOf old c

theorem Stored.canonicalised {m : Module} (hm : m.StructsSound) {h : Handle} {a : Nat} {v : Value}
    {old new : Array UInt32} (hst : Stored m (.inline h) a v old new)
    (hold : Holds m (bitsOf old) (.inline h) a v) : Canonicalised m h a old new := by
  refine ⟨hst.size_eq, fun c hc => hst.cleared hc.1 hc.2, fun c hc => ?_⟩
  by_cases hcov : Covers m (.inline h) a c
  · exact (hst.holds hm hold.1).agree hold hcov
  · have hj : ¬ Touches m (.inline h) a (c / 32) := by
      intro hj
      exact hc ⟨hj, hcov⟩
    rw [bitsOf, bitsOf, hst.kept _ hj]

section reads

variable {b : Buffer} {h : Handle} {offset : UInt32} {v : Value}

theorem inside_of_readStruct (he : b.readStruct h offset = .ok v) :
    ∃ d fields, b.module.def? h = some d ∧ d.body = .struct fields ∧
      Inside b.words.size d.size offset := by
  rw [Buffer.readStruct, Buffer.depth, Buffer.decodeStruct] at he
  obtain ⟨⟨d, fields⟩, hdef, he⟩ := bind_eq_ok_iff.mp he
  obtain ⟨hd, hb⟩ := structDef_eq_ok.mp hdef
  obtain ⟨ix, hbase, -⟩ := bind_eq_ok_iff.mp he
  exact ⟨d, fields, hd, hb, (base_eq_ok.mp hbase).1⟩

variable (hm : b.module.StructsSound) (hw : b.words.size ≤ 2 ^ 30)
include hm hw

theorem holds_of_readStruct (he : b.readStruct h offset = .ok v) :
    ∃ values, v = .struct h values ∧
      Holds b.module (bitsOf b.words) (.inline h) offset.toNat v := by
  obtain ⟨d, fields, hd, hb, hin⟩ := inside_of_readStruct he
  obtain ⟨values, hv⟩ := exists_holds hm (bitsOf b.words) hd hb offset.toNat
  rw [readStruct_of_holds hm hw hd hb hin hv] at he
  obtain rfl := Except.ok.inj he
  exact ⟨values, rfl, hv⟩

theorem writeStruct_of_readStruct (he : b.readStruct h offset = .ok v) :
    ∃ values words, v = .struct h values ∧
      b.writeStruct offset h values = .ok ⟨b.module, words⟩ ∧
      Canonicalised b.module h offset.toNat b.words words := by
  obtain ⟨d, fields, hd, hb, hin⟩ := inside_of_readStruct he
  obtain ⟨values, rfl, hv⟩ := holds_of_readStruct hm hw he
  obtain ⟨words, hwrite, hst⟩ := exists_writeStruct hm hw hd hb hin hv.1
  exact ⟨values, words, rfl, hwrite, hst.canonicalised hm hv⟩

theorem readStruct_eq_iff {words : Array UInt32} (hw' : words.size ≤ 2 ^ 30) {v' : Value}
    (he : b.readStruct h offset = .ok v)
    (he' : Buffer.readStruct ⟨b.module, words⟩ h offset = .ok v') :
    v = v' ↔ ∀ c, Covers b.module (.inline h) offset.toNat c →
      bitsOf b.words c = bitsOf words c := by
  obtain ⟨values, -, hv⟩ := holds_of_readStruct hm hw he
  obtain ⟨values', -, hv'⟩ := @holds_of_readStruct ⟨b.module, words⟩ h offset v' hm hw' he'
  constructor
  · rintro rfl c hc
    exact hv.agree hv' hc
  · intro hbits
    -- the second buffer holds the first value too, and reading it gives one value only
    obtain ⟨d, fields, hd, hb, hin⟩ := inside_of_readStruct he'
    have hread := @readStruct_of_holds ⟨b.module, words⟩ hm hw' h d fields offset hd hb hin v
      (hv.congr hbits)
    exact Except.ok.inj (hread.symm.trans he')

end reads

/-- Writing back what was read clears padding and does nothing else, and reads see exactly the bits
of scalars. -/
theorem write_back_is_canonicalisation {m : Module} (hv : m.validate = []) (hx : m.ExactEnds)
    {words : Array UInt32} (hw : words.size ≤ 2 ^ 30) {h : Handle} {offset : UInt32} {s : Value}
    (hs : Buffer.readStruct ⟨m, words⟩ h offset = .ok s) :
    (∃ values words', s = .struct h values ∧
      Buffer.writeStruct ⟨m, words⟩ offset h values = .ok ⟨m, words'⟩ ∧
      Canonicalised m h offset.toNat words words') ∧
    ∀ (words₂ : Array UInt32) (s₂ : Value), words₂.size ≤ 2 ^ 30 →
      Buffer.readStruct ⟨m, words₂⟩ h offset = .ok s₂ →
      (s = s₂ ↔ ∀ c, Covers m (.inline h) offset.toNat c → bitsOf words c = bitsOf words₂ c) := by
  have hm := wellFormed_of_validate hv hx
  constructor
  · exact @writeStruct_of_readStruct ⟨m, words⟩ h offset s hm hw hs
  · intro words₂ s₂ hw₂ hs₂
    exact @readStruct_eq_iff ⟨m, words⟩ h offset s hm hw words₂ hw₂ s₂ hs hs₂

theorem write_back_is_canonicalisation_sample :
    sampleModule.validate = [] ∧ sampleModule.ExactEnds ∧
      ∃ s, Buffer.readStruct ⟨sampleModule, Array.replicate 8 0xFFFFFFFF⟩ 1 4 = .ok s ∧
        (∃ values words', s = .struct 1 values ∧
          Buffer.writeStruct ⟨sampleModule, Array.replicate 8 0xFFFFFFFF⟩ 4 1 values =
            .ok ⟨sampleModule, words'⟩ ∧
          Canonicalised sampleModule 1 4 (Array.replicate 8 0xFFFFFFFF) words') ∧
        ∀ c, Covers sampleModule (.inline 1) 4 c → bitsOf (Array.replicate 8 0xFFFFFFFF) c =
          bitsOf #[0, 0xFFFFFFFF, 0xFFFF, 0xFFFF00FF, 0xFFFFFFFF, 0xFFFFFFFF] c := by
  have hx : sampleModule.ExactEnds := by decide
  have hs : Buffer.readStruct ⟨sampleModule, Array.replicate 8 0xFFFFFFFF⟩ 1 4 =
      .ok (.struct 1 [.vector [.i16 (-1), .i16 (-1), .i16 (-1)],
        .struct 0 [.i8 (-1), .u16 0xFFFF, .ref 0xFFFFFFFF], .f32 0xFFFFFFFF]) := by cbv
  obtain ⟨hwrite, hsame⟩ := write_back_is_canonicalisation sampleModule_accepted hx (by decide) hs
  exact ⟨sampleModule_accepted, hx, _, hs, hwrite, (hsame _ _ (by decide) (by cbv)).mp rfl⟩

end WordLayout.Host
