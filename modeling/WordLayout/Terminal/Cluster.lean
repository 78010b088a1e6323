import WordLayout.Terminal.CharClass
import WordLayout.Text.Bytes

namespace WordLayout.Terminal

inductive Joint
  | plain
  | return_
  | control
  | prepend
  | pictograph
  | joined
  | oddRegional
  | evenRegional
  | leading
  | vowel
  | trailing
  deriving DecidableEq, Inhabited

namespace Joint

def ofClass : CharClass → Joint
  | .return_ => .return_
  | .feed | .control => .control
  | .prepend => .prepend
  | .pictograph => .pictograph
  | .regional => .oddRegional
  | .leading => .leading
  | .vowel | .openSyllable => .vowel
  | .trailing | .closedSyllable => .trailing
  | .extender | .joiner | .spacing | .other => .plain

def add? (j : Joint) (k : CharClass) : Option Joint :=
  match j, k with
  | .return_, .feed => some .control
  | .return_, _ | .control, _ => none
  | _, .return_ | _, .feed | _, .control => none
  | .pictograph, .extender => some .pictograph
  | .pictograph, .joiner => some .joined
  | _, .extender | _, .joiner | _, .spacing => some .plain
  | .prepend, k => some (ofClass k)
  | .joined, .pictograph => some .pictograph
  | .oddRegional, .regional => some .evenRegional
  | .leading, .leading => some .leading
  | .leading, .vowel | .leading, .openSyllable | .vowel, .vowel => some .vowel
  | .leading, .closedSyllable | .vowel, .trailing | .trailing, .trailing => some .trailing
  | _, _ => none

end Joint

structure Cluster where
  head : Char
  size : Nat
  width : Nat
  deriving DecidableEq, Inhabited

namespace Cluster

def decode (bs : List UInt8) : Char × Nat := (Text.decodeFirst? bs).getD (Text.replacement, 1)

/-- The cells of a cluster with one more character. Behind a pictograph the selectors U+FE0E and
U+FE0F choose between one and two cells; a flag and a syllable are as wide as their start. -/
def widen (first : CharClass) (width : Nat) (c : Char) : Nat :=
  match first with
  | .pictograph => if c.toNat = 0xfe0e then 1 else if c.toNat = 0xfe0f then 2 else width
  | .regional | .leading => width
  | _ => width + charWidth c

def extend (first : CharClass) : Nat → Joint → Cluster → List UInt8 → Cluster
  | 0, _, k, _ => k
  | _, _, k, [] => k
  | fuel + 1, j, k, bs =>
    let (c, n) := decode bs
    match j.add? (.ofChar c) with
    | none => k
    | some j =>
      extend first fuel j { k with size := k.size + n, width := widen first k.width c } (bs.drop n)

def first (bs : List UInt8) : Cluster :=
  let (c, n) := decode bs
  let k := CharClass.ofChar c
  extend k bs.length (.ofClass k) ⟨c, n, charWidth c⟩ (bs.drop n)

end Cluster

end WordLayout.Terminal
