import WordLayout.Scalar
import WordLayout.Word

namespace WordLayout

inductive ExtractOp
  | word
  | mask
  | shift
  | shiftMask
  | float
  | int
  | intShift
  | intPair
  deriving DecidableEq, Inhabited

/-- Decodes the scalar stored in word `word` of a struct. `shift` goes right, arithmetically for
signed kinds; `up` goes left first and belongs to `ExtractOp.intPair`. -/
structure Extract where
  word : UInt32
  kind : ScalarKind
  op : ExtractOp
  shift : UInt32 := 0
  up : UInt32 := 0
  mask : UInt32 := 0
  deriving DecidableEq, Inhabited

namespace Extract

def plan (offset : UInt32) (kind : ScalarKind) : Extract :=
  let word := offset / 4
  let pos := offset % 4
  let bytes := kind.size
  if kind.isFloat then { word, kind, op := .float }
  else if kind.isSigned then
    if bytes = 4 then { word, kind, op := .int }
    else if pos + bytes = 4 then { word, kind, op := .intShift, shift := pos * 8 }
    else { word, kind, op := .intPair, up := (4 - bytes - pos) * 8, shift := (4 - bytes) * 8 }
  else if bytes = 4 then { word, kind, op := .word }
  else if pos = 0 then { word, kind, op := .mask, mask := Word.lowMask bytes }
  else if pos + bytes = 4 then { word, kind, op := .shift, shift := pos * 8 }
  else { word, kind, op := .shiftMask, shift := pos * 8, mask := Word.lowMask bytes }

def bits (e : Extract) (raw : UInt32) : UInt32 :=
  match e.op with
  | .mask => raw &&& e.mask
  | .shift => raw >>> e.shift
  | .shiftMask => (raw >>> e.shift) &&& e.mask
  | .intShift | .intPair =>
    let width := e.kind.size * 8
    (Word.signExtend raw (32 - width - e.up).toUInt64 width.toUInt64).toUInt32
  | .word | .float | .int => raw

end Extract

structure Insert where
  word : UInt32
  kind : ScalarKind
  shift : UInt32
  mask : UInt32 := 0
  deriving DecidableEq, Inhabited

namespace Insert

/-- The plan for a scalar at a byte offset. A signed value narrower than a word is masked to its
width unless it ends at the top of the word; an unsigned one only if `maskUnsigned` asks for it. -/
def plan (offset : UInt32) (kind : ScalarKind) (maskUnsigned : Bool) : Insert :=
  let word := offset / 4
  let shift := (offset % 4) * 8
  let bytes := kind.size
  let topAligned := shift + bytes * 8 == 32
  if bytes = 4 then { word, kind, shift }
  else if (kind.isSigned && !topAligned) || (!kind.isSigned && maskUnsigned) then
    { word, kind, shift, mask := Word.lowMask bytes }
  else { word, kind, shift }

def bits (i : Insert) (value : UInt32) : UInt32 :=
  (if i.mask = 0 then value else value &&& i.mask) <<< i.shift

end Insert

end WordLayout
