import WordLayout.Yaml.Char
import WordLayout.Yaml.Error

/-!
The characters of a text from its bytes, in UTF-8 or, where a byte order mark says so, in UTF-16.
Bytes are decoded in chunks of 512, and a reader gets whole chunks only: it meets a wrong byte as
soon as it asks for the chunk that holds it.
-/

namespace WordLayout.Yaml

inductive Encoding
  | utf8
  | utf16 (littleEndian : Bool)
  deriving DecidableEq, Inhabited

/-- A text by chunks: its characters, the number of characters in each chunk, and the problem that
the chunk behind them has, if there is one. That chunk's characters before the problem are the
last `spare` ones of the text. -/
structure Input where
  chars : List Char := []
  chunks : List Nat := []
  fault : Option Problem := none
  spare : Nat := 0
  deriving DecidableEq, Inhabited

namespace Input

inductive Step
  | char (code width : Nat)
  | incomplete (problem : Problem)
  | wrong (problem : Problem)

def utf8Value (lead width : Nat) (rest : List UInt8) : Except Problem Nat :=
  rest.foldlM (fun (n : Nat) (b : UInt8) =>
    if b &&& 0xc0 = 0x80 then Except.ok (n * 64 + (b.toNat - 0x80))
    else .error .trailingOctet)
    (match width with
      | 1 => lead
      | 2 => lead % 32
      | 3 => lead % 16
      | _ => lead % 8)

def utf8Step (b : UInt8) (rest : List UInt8) : Step :=
  let lead := b.toNat
  let width :=
    if lead < 0x80 then 1
    else if lead < 0xc0 then 0
    else if lead < 0xe0 then 2
    else if lead < 0xf0 then 3
    else if lead < 0xf8 then 4
    else 0
  if width = 0 then .wrong .leadingOctet
  else
    let tail := rest.take (width - 1)
    if tail.length < width - 1 then .incomplete .incompleteSequence
    else
      match utf8Value lead width tail with
      | .error p => .wrong p
      | .ok n =>
        if (width = 2 ∧ n < 0x80) ∨ (width = 3 ∧ n < 0x800) ∨ (width = 4 ∧ n < 0x10000) then
          .wrong .sequenceLength
        else if (0xd800 ≤ n ∧ n ≤ 0xdfff) ∨ 0x10ffff < n then .wrong .invalidCharacter
        else .char n width

def unit (littleEndian : Bool) (a b : UInt8) : Nat :=
  if littleEndian then b.toNat * 256 + a.toNat else a.toNat * 256 + b.toNat

def utf16Step (littleEndian : Bool) (a : UInt8) : List UInt8 → Step
  | [] => .incomplete .incompleteUnit
  | b :: rest =>
    let n := unit littleEndian a b
    if 0xdc00 ≤ n ∧ n ≤ 0xdfff then .wrong .lowSurrogate
    else if 0xd800 ≤ n ∧ n ≤ 0xdbff then
      match rest with
      | c :: d :: _ =>
        let low := unit littleEndian c d
        if 0xdc00 ≤ low ∧ low ≤ 0xdfff then
          .char (0x10000 + (n - 0xd800) * 1024 + (low - 0xdc00)) 4
        else .wrong .noLowSurrogate
      | _ => .incomplete .incompletePair
    else .char n 2

inductive ChunkEnd
  | complete
  | incomplete (left : List UInt8) (problem : Problem)
  | wrong (problem : Problem)

def chunk (e : Encoding) : List UInt8 → List Char × ChunkEnd
  | [] => ([], .complete)
  | b :: rest =>
    let step :=
      match e with
      | .utf8 => utf8Step b rest
      | .utf16 littleEndian => utf16Step littleEndian b rest
    match step with
    | .wrong p => ([], .wrong p)
    | .incomplete p => ([], .incomplete (b :: rest) p)
    | .char n width =>
      if isAllowedCode n then
        let (cs, stop) := chunk e (rest.drop (width - 1))
        (Char.ofNat n :: cs, stop)
      else ([], .wrong .controlCharacter)
termination_by bs => bs.length
decreasing_by simp only [List.length_cons, List.length_drop]; omega

def addChunk (cs : List Char) (rest : Input) : Input :=
  { rest with chars := cs ++ rest.chars, chunks := cs.length :: rest.chunks }

/-- Reads chunk after chunk. Every chunk but the last leaves at most three bytes, so `fuel` may be
the number of bytes. -/
def read (e : Encoding) : Nat → Nat → List UInt8 → Input
  | 0, _, _ => {}
  | fuel + 1, size, bs =>
    let (cs, stop) := chunk e (bs.take size)
    let after := bs.drop size
    match stop with
    | .wrong p => { chars := cs, fault := some p, spare := cs.length }
    | .complete => if after.isEmpty then addChunk cs {} else addChunk cs (read e fuel 512 after)
    | .incomplete left p =>
      if after.isEmpty then addChunk cs { fault := some p }
      else addChunk cs (read e fuel 512 (left ++ after))

def ofBytes (bs : List UInt8) : Input :=
  match bs with
  | 0xff :: 0xfe :: rest => read (.utf16 true) (bs.length + 1) 510 rest
  | 0xfe :: 0xff :: rest => read (.utf16 false) (bs.length + 1) 510 rest
  | 0xef :: 0xbb :: 0xbf :: rest => read .utf8 (bs.length + 1) 509 rest
  | _ => read .utf8 (bs.length + 1) 512 bs

end Input

end WordLayout.Yaml
