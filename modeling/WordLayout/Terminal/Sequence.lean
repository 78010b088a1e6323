import WordLayout.Terminal.Cluster
import WordLayout.Terminal.Style

namespace WordLayout.Terminal

structure Sequence where
  size : Nat
  width : Nat
  pen : Pen
  deriving DecidableEq, Inhabited

namespace Sequence

def noValue : Nat := 0x7fffffff

def parameter (digits : List UInt8) (joined : Bool) : Parameter :=
  let n := digits.foldl
    (fun n d => ((if n = noValue then 0 else n) * 10 + (d.toNat - 0x30)) % 0x10000000000000000)
    noValue
  let low := n % 0x80000000
  { value := if low = noValue then 0 else low, joined := joined || 0x80000000 ≤ n }

def parametersFrom (digits : List UInt8) : List UInt8 → List Parameter
  | [] => [parameter digits.reverse false]
  | b :: bs =>
    if b = 0x3a then parameter digits.reverse true :: parametersFrom [] bs
    else if b = 0x3b then parameter digits.reverse false :: parametersFrom [] bs
    else parametersFrom (b :: digits) bs

def parameters (bs : List UInt8) : List Parameter := if bs.isEmpty then [] else parametersFrom [] bs

def isParameterByte (b : UInt8) : Bool := 0x30 ≤ b && b ≤ 0x3b

def isIntermediate (b : UInt8) : Bool := 0x20 ≤ b && b ≤ 0x2f

def isFinal (b : UInt8) : Bool := 0x40 ≤ b && b ≤ 0x7e

def textOf (bell : Bool) : List UInt8 → List UInt8 × Nat
  | [] => ([], 0)
  | b :: bs =>
    if b = 0x18 || b = 0x1a then ([], 0)
    else if b = 0x9c || (bell && b = 7) then ([], 1)
    else if b = 0x1b then ([], if bs.head? = some 0x5c then 2 else 0)
    else
      let (text, n) := textOf bell bs
      (b :: text, n)

def fields : List UInt8 → List (List UInt8)
  | [] => [[]]
  | b :: bs =>
    if b = 0x3b then [] :: fields bs
    else
      match fields bs with
      | [] => [[b]]
      | f :: fs => (b :: f) :: fs

def command (text : List UInt8) : Option Nat :=
  match text.takeWhile fun b => 0x30 ≤ b && b ≤ 0x39 with
  | [] => none
  | digits => some (digits.foldl (fun n d => n * 10 + (d.toNat - 0x30)) 0)

def linkOf? (text : List UInt8) : Option Link :=
  if command text = some 8 then
    match fields text with
    | [_, options, target] => some { options, target }
    | _ => none
  else none

def withText (pen : Pen) (start : Nat) (commands : Bool) (bs : List UInt8) : Sequence :=
  let (text, n) := textOf commands bs
  let pen :=
    match commands, linkOf? text with
    | true, some link => { pen with link }
    | _, _ => pen
  { size := start + text.length + n, width := 0, pen }

/-- A sequence with parameters behind `start` bytes. A byte that cannot stand in one ends it.
Where `styles` holds, the final byte `m` changes the style; where `text` holds, a text follows the
final byte. -/
def withParameters (pen : Pen) (start : Nat) (styles text : Bool) (bs : List UInt8) : Sequence :=
  let marks := bs.takeWhile fun b => 0x3c ≤ b && b ≤ 0x3f
  let rest := bs.drop marks.length
  let params := rest.takeWhile isParameterByte
  let rest := rest.drop params.length
  let inner := rest.takeWhile isIntermediate
  let size := start + marks.length + params.length + inner.length
  match rest.drop inner.length with
  | [] => { size, width := 0, pen }
  | b :: after =>
    if !isFinal b then { size, width := 0, pen }
    else if text then withText pen (size + 1) false after
    else if styles && b = 0x6d && marks.isEmpty && inner.isEmpty then
      let style := pen.style.apply (parameters params)
      { size := size + 1, width := 0, pen := { pen with style } }
    else { size := size + 1, width := 0, pen }

def escape (pen : Pen) (start : Nat) : List UInt8 → Sequence
  | [] => { size := start, width := 0, pen }
  | b :: bs =>
    let n := b.toNat
    if n = 0x5b then withParameters pen (start + 1) (start = 1) false bs
    else if n = 0x50 then withParameters pen (start + 1) false (start = 1) bs
    else if n = 0x5d then withText pen (start + 1) (start = 1) bs
    else if n = 0x58 || n = 0x5e || n = 0x5f then withText pen (start + 1) false bs
    else if isIntermediate b then escape pen (start + 1) bs
    else if 0x30 ≤ n && n ≤ 0x7e then { size := start + 1, width := 0, pen }
    else { size := start, width := 0, pen }

def first (pen : Pen) : List UInt8 → Sequence
  | [] => { size := 0, width := 0, pen }
  | b :: bs =>
    let n := b.toNat
    if n = 0x1b then escape pen 1 bs
    else if n = 0x9b then withParameters pen 1 true false bs
    else if n = 0x90 then withParameters pen 1 false true bs
    else if n = 0x9d then withText pen 1 true bs
    else if n = 0x98 || n = 0x9e || n = 0x9f then withText pen 1 false bs
    else if 0x20 ≤ n && n ≤ 0x7e then { size := 1, width := 1, pen }
    else if n < 0xc0 then { size := 1, width := 0, pen }
    else
      let k := Cluster.first (b :: bs)
      { size := k.size, width := k.width, pen }

end Sequence

end WordLayout.Terminal
