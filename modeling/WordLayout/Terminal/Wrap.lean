import WordLayout.Terminal.Control
import WordLayout.Terminal.Sequence
import WordLayout.Text.Blank

/-!
Texts broken into lines of a terminal, and the number of lines that a text is given room for.
-/

namespace WordLayout.Terminal

/-- A text being broken. The blanks and the word, which stand in reverse like the finished bytes,
are not yet part of the current line. `pen` is the one behind the last sequence, `written` the one
behind the last word of the finished text. -/
structure Wrapping where
  done : List UInt8 := []
  used : Nat := 0
  blanks : Nat := 0
  word : List UInt8 := []
  wordWidth : Nat := 0
  pen : Pen := {}
  written : Pen := {}
  deriving Inhabited

namespace Wrapping

def write (w : Wrapping) (bs : List UInt8) : Wrapping := { w with done := bs.reverse ++ w.done }

def addBlanks (w : Wrapping) : Wrapping :=
  { w with done := List.replicate w.blanks 32 ++ w.done, used := w.used + w.blanks, blanks := 0 }

def addWord (w : Wrapping) : Wrapping :=
  if w.word.isEmpty then w
  else
    let w := w.addBlanks
    { w with done := w.word ++ w.done, used := w.used + w.wordWidth, word := [], wordWidth := 0
             written := w.pen }

def newLine (w : Wrapping) : Wrapping :=
  { w.write w.written.newLine with used := 0, blanks := 0 }

def addToWord (limit : Nat) (bs : List UInt8) (width : Nat) (w : Wrapping) : Wrapping :=
  let w := if limit < w.wordWidth + width then w.addWord else w
  let w := { w with word := bs.reverse ++ w.word, wordWidth := w.wordWidth + width }
  if limit < w.used + w.wordWidth + w.blanks then w.newLine else w

def endLine (limit : Nat) (w : Wrapping) : Wrapping :=
  let w :=
    if w.wordWidth = 0 then
      let w := if limit < w.used + w.blanks then w else w.write (List.replicate w.blanks 32)
      { w with blanks := 0 }
    else w
  w.addWord

def add (limit : Nat) (bs : List UInt8) (width : Nat) (w : Wrapping) : Wrapping :=
  if width = 0 then
    if bs = [10] then (w.endLine limit).newLine else { w with word := bs.reverse ++ w.word }
  else if bs = [32] && w.pen.style.hidesBlanks then
    let w := w.addWord
    { w with blanks := w.blanks + 1 }
  else if bs = [45] then
    let w := w.addBlanks
    if w.used + w.wordWidth + width ≤ limit then
      let w := w.addWord.write bs
      { w with used := w.used + width }
    else w.addToWord limit bs width
  else w.addToWord limit bs width

def run (limit : Nat) : Nat → Wrapping → List UInt8 → Wrapping
  | 0, w, _ => w
  | _, w, [] => w
  | fuel + 1, w, bs =>
    let s := Sequence.first w.pen bs
    run limit fuel (({ w with pen := s.pen }).add limit (bs.take s.size) s.width) (bs.drop s.size)

end Wrapping

def wrap (limit : Nat) (bs : List UInt8) : List UInt8 :=
  if limit = 0 || bs.isEmpty then bs
  else
    let w := ((Wrapping.run limit bs.length {} bs).endLine limit)
    (w.write w.written.finish).done.reverse

structure BreakCount where
  breaks : Nat := 0
  used : Nat := 0
  blanks : Nat := 0
  inWord : Bool := false
  wordWidth : Nat := 0
  deriving DecidableEq, Inhabited

namespace BreakCount

def addBlanks (k : BreakCount) : BreakCount := { k with used := k.used + k.blanks, blanks := 0 }

def addWord (k : BreakCount) : BreakCount :=
  if k.inWord then
    let k := k.addBlanks
    { k with used := k.used + k.wordWidth, inWord := false, wordWidth := 0 }
  else k

def breakIfFull (limit : Nat) (k : BreakCount) : BreakCount :=
  if limit < k.used + k.wordWidth + k.blanks then
    { k with breaks := k.breaks + 1, used := 0, blanks := 0 }
  else k

def grow (width : Nat) (k : BreakCount) : BreakCount :=
  { k with inWord := true, wordWidth := k.wordWidth + width }

def addBlank (size : Nat) (k : BreakCount) : BreakCount :=
  let k := k.addWord
  { k with blanks := k.blanks + size }

def add (limit : Nat) (k : BreakCount) : Part → BreakCount
  | .byte _ .collect => { k with inWord := true }
  | .byte b _ =>
    let c := Char.ofNat b.toNat
    if Text.isBlank c then k.addBlank (Text.encodeChar c).length
    else if c = '-' then
      let k := k.addBlanks
      if limit ≤ k.used + k.wordWidth then k.grow 1
      else
        let k := k.addWord
        { k with used := k.used + 1 }
    else
      let k := k.grow 1
      (if k.wordWidth = limit then k.addWord else k).breakIfFull limit
  | .cluster c =>
    if Text.isBlank c.head && c.head.toNat ≠ 0xa0 then k.addBlank (Text.encodeChar c.head).length
    else
      ((if limit < k.wordWidth + c.width then k.addWord else k).grow c.width).breakIfFull limit

end BreakCount

def lineHeight (limit : Nat) (line : List UInt8) : Nat :=
  ((parts line).foldl (BreakCount.add limit) {}).breaks + 1

end WordLayout.Terminal
