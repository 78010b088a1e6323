import WordLayout.Module

/-!
Word coverage: which parts of which fields fall into each word of a struct. Reading takes every
byte of every field by its word; writing takes what makes up one word store, and leaves a nested
struct to its own encoder, so that it appears once.
-/

namespace WordLayout

inductive Mode
  | read
  | write
  deriving DecidableEq, Inhabited

inductive PieceKind
  | scalar
  | lane
  | ref
  | nested
  deriving DecidableEq, Inhabited

structure Piece where
  kind : PieceKind
  field : Nat
  lane : Option Nat
  offset : UInt32
  size : UInt32
  deriving DecidableEq, Inhabited

namespace Piece

def word (p : Piece) : UInt32 := p.offset / 4

def shift (p : Piece) : UInt32 := (p.offset % 4) * 8

def isRaw (p : Piece) : Bool := p.kind != .nested

end Piece

structure Group where
  word : UInt32
  pieces : List Piece
  deriving DecidableEq, Inhabited

namespace Group

def isEmpty (g : Group) : Bool := g.pieces.isEmpty

def needsRaw (g : Group) : Bool := g.pieces.any Piece.isRaw

end Group

namespace Coverage

def cut (start stop : UInt32) : UInt32 :=
  if stop < (start / 4 + 1) * 4 then stop else (start / 4 + 1) * 4

theorem cut_le (start stop : UInt32) : cut start stop ≤ stop := by
  unfold cut
  split
  · exact UInt32.le_refl stop
  · rename_i h
    rw [UInt32.lt_iff_toNat_lt] at h
    rw [UInt32.le_iff_toNat_le]
    omega

/-- Cuts `[start, stop)` at word boundaries, as offsets with sizes. The walk ends where it would
not advance, which needs a range that reaches into the last word of the address space. -/
def spanTo (start stop : UInt32) : List (UInt32 × UInt32) :=
  if start < stop then
    if start < cut start stop then
      (start, cut start stop - start) :: spanTo (cut start stop) stop
    else [(start, cut start stop - start)]
  else []
termination_by stop.toNat - start.toNat
decreasing_by
  have h := cut_le start stop
  simp_all only [UInt32.le_iff_toNat_le, UInt32.lt_iff_toNat_lt]
  omega

def span (offset size : UInt32) : List (UInt32 × UInt32) := spanTo offset (offset + size)

def piecesOf (mode : Mode) (i : Nat) (f : Field) : List Piece :=
  match f.ty with
  | .scalar _ => (span f.offset f.size).map fun (o, n) => ⟨.scalar, i, none, o, n⟩
  | .vector k lanes =>
    (List.range lanes.toNat).flatMap fun lane =>
      (span (f.offset + UInt32.ofNat lane * k.size) k.size).map fun (o, n) =>
        ⟨.lane, i, some lane, o, n⟩
  | .ref _ => (span f.offset 4).map fun (o, n) => ⟨.ref, i, none, o, n⟩
  | .inline _ =>
    match mode with
    | .write => [⟨.nested, i, none, f.offset, f.size⟩]
    | .read => (span f.offset f.size).map fun (o, n) => ⟨.nested, i, none, o, n⟩
  | .missing => []

def pieces (mode : Mode) (fields : List Field) : List Piece :=
  fields.zipIdx.flatMap fun (f, i) => piecesOf mode i f

def wordCount (size : UInt32) (ps : List Piece) : Nat :=
  ps.foldl (fun n p => max n (p.word.toNat + 1)) ((size + 3) / 4).toNat

def resolve (fields : List Field) (size : UInt32) (mode : Mode) : List Group :=
  let ps := pieces mode fields
  let slots : Array (List Piece) :=
    ps.foldr (fun p slots => slots.modify p.word.toNat (p :: ·))
      (Array.replicate (wordCount size ps) [])
  slots.toList.zipIdx.map fun (ps, i) => ⟨UInt32.ofNat i, ps⟩

end Coverage

end WordLayout
