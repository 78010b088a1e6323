import WordLayout.Text.Bytes

namespace WordLayout.Terminal

structure Parameter where
  value : Nat
  joined : Bool
  deriving DecidableEq, Inhabited

inductive Attribute
  | bold
  | faint
  | italic
  | slowBlink
  | rapidBlink
  | reverse
  | conceal
  | strike
  deriving DecidableEq, Inhabited

namespace Attribute

def all : List Attribute :=
  [bold, faint, italic, slowBlink, rapidBlink, reverse, conceal, strike]

def code : Attribute → Nat
  | bold => 1
  | faint => 2
  | italic => 3
  | slowBlink => 5
  | rapidBlink => 6
  | reverse => 7
  | conceal => 8
  | strike => 9

def cleared : Nat → List Attribute
  | 22 => [bold, faint]
  | 23 => [italic]
  | 25 => [slowBlink, rapidBlink]
  | 27 => [reverse]
  | 28 => [conceal]
  | 29 => [strike]
  | _ => []

end Attribute

inductive Underline
  | single
  | double
  | curly
  | dotted
  | dashed
  deriving DecidableEq, Inhabited

namespace Underline

def ofCode? : Nat → Option Underline
  | 1 => some single
  | 2 => some double
  | 3 => some curly
  | 4 => some dotted
  | 5 => some dashed
  | _ => none

def text : Underline → String
  | single => "4"
  | double => "4:2"
  | curly => "4:3"
  | dotted => "4:4"
  | dashed => "4:5"

end Underline

inductive Color
  | basic (n : Nat)
  | palette (n : Nat)
  | mixed (red green blue : Nat)
  deriving DecidableEq, Inhabited

namespace Color

def narrow (n : Nat) : Nat := if n < 256 then n else n / 256

def lightLeft (ink black : Nat) : Nat :=
  narrow ((65535 - ink % 256 * 257) * (65535 - black % 256 * 257) / 65535)

def parts? (ps : List Parameter) : Option (List Nat × Nat) :=
  let joined := (ps.takeWhile (·.joined)).length
  let values (start count : Nat) := ((ps.drop start).take count).map (·.value)
  if 6 ≤ joined && 6 < ps.length then some (values 3 4, min (min joined 8 + 1) ps.length)
  else if joined = 5 && 5 < ps.length then some (values 3 3, 6)
  else if joined = 4 && 4 < ps.length then some (values 2 3, 5)
  else if 5 ≤ ps.length && (ps.take 5).all (!·.joined) then some (values 2 3, 5)
  else none

def ofParameters? (ps : List Parameter) : Option (Option Color × Nat) :=
  match ps with
  | target :: kind :: rest =>
    match kind.value with
    | 0 => some (none, 2)
    | 1 => some (some (.mixed 0 0 0), 2)
    | 2 =>
      match parts? ps with
      | some (r :: g :: b :: _, n) => some (some (.mixed (r % 256) (g % 256) (b % 256)), n)
      | _ => none
    | 3 =>
      match parts? ps with
      | some (c :: m :: y :: _, n) =>
        some (some (.mixed (lightLeft c 0) (lightLeft m 0) (lightLeft y 0)), n)
      | _ => none
    | 4 =>
      match parts? ps with
      | some (c :: m :: y :: k :: _, n) =>
        some (some (.mixed (lightLeft c k) (lightLeft m k) (lightLeft y k)), n)
      | _ => none
    | 5 =>
      match rest with
      | index :: _ =>
        if target.joined = kind.joined && !index.joined then
          some (some (.palette (index.value % 256)), 3)
        else none
      | [] => none
    | _ => none
  | _ => none

def text (base bright : Nat) : Color → String
  | basic n => if n < 8 then toString (base + n) else toString (bright + (n - 8))
  | palette n => toString (base + 8) ++ ";5;" ++ toString n
  | mixed r g b =>
    toString (base + 8) ++ ";2;" ++ toString r ++ ";" ++ toString g ++ ";" ++ toString b

end Color

structure Style where
  attributes : List Attribute := []
  underline : Option Underline := none
  foreground : Option Color := none
  background : Option Color := none
  underlineColor : Option Color := none
  deriving DecidableEq, Inhabited

namespace Style

def isPlain (s : Style) : Bool :=
  s.attributes.isEmpty && s.underline.isNone && s.foreground.isNone && s.background.isNone &&
    s.underlineColor.isNone

def hidesBlanks (s : Style) : Bool :=
  !s.attributes.contains .reverse && s.background.isNone && s.underline.isNone

def set (s : Style) (a : Attribute) : Style :=
  { s with attributes := a :: s.attributes.filter (· ≠ a) }

def clear (s : Style) (as : List Attribute) : Style :=
  { s with attributes := s.attributes.filter (!as.contains ·) }

/-- The style behind a parameter, and how many of the parameters behind that one belong to it. -/
def step (s : Style) (p : Parameter) (rest : List Parameter) : Style × Nat :=
  let n := p.value
  let color (change : Option Color → Style) : Style × Nat :=
    match Color.ofParameters? (p :: rest) with
    | some (c, used) => (change c, used - 1)
    | none => (s, 0)
  if n = 0 then ({}, 0)
  else if n = 4 then
    match p.joined, rest with
    | true, q :: _ =>
      if q.value ≤ 5 then ({ s with underline := Underline.ofCode? q.value }, 1) else (s, 0)
    | _, _ => ({ s with underline := some .single }, 0)
  else if n = 24 then ({ s with underline := none }, 0)
  else if n = 38 then color fun c => { s with foreground := c }
  else if n = 39 then ({ s with foreground := none }, 0)
  else if n = 48 then color fun c => { s with background := c }
  else if n = 49 then ({ s with background := none }, 0)
  else if n = 58 then color fun c => { s with underlineColor := c }
  else if n = 59 then ({ s with underlineColor := none }, 0)
  else if 30 ≤ n && n ≤ 37 then ({ s with foreground := some (.basic (n - 30)) }, 0)
  else if 40 ≤ n && n ≤ 47 then ({ s with background := some (.basic (n - 40)) }, 0)
  else if 90 ≤ n && n ≤ 97 then ({ s with foreground := some (.basic (n - 90 + 8)) }, 0)
  else if 100 ≤ n && n ≤ 107 then ({ s with background := some (.basic (n - 100 + 8)) }, 0)
  else
    match Attribute.all.find? (·.code = n) with
    | some a => (s.set a, 0)
    | none => (s.clear (Attribute.cleared n), 0)

def stepAll (s : Style) : List Parameter → Style
  | [] => s
  | p :: ps =>
    let next := s.step p ps
    stepAll next.1 (ps.drop next.2)
termination_by ps => ps.length
decreasing_by simp only [List.length_cons, List.length_drop]; omega

def apply (s : Style) : List Parameter → Style
  | [] => {}
  | ps => s.stepAll ps

def codes (s : Style) : List String :=
  ((Attribute.all.filter s.attributes.contains).map fun a => toString a.code) ++
    (s.underline.map Underline.text).toList ++
    (s.foreground.map (Color.text 30 90)).toList ++
    (s.background.map (Color.text 40 100)).toList ++
    (s.underlineColor.map (Color.text 50 50)).toList

def clearSequence : String := "\x1b[m"

def sequence (s : Style) : String := "\x1b[" ++ ";".intercalate s.codes ++ "m"

end Style

structure Link where
  options : List UInt8 := []
  target : List UInt8 := []
  deriving DecidableEq, Inhabited

namespace Link

def isEmpty (l : Link) : Bool := l.options.isEmpty && l.target.isEmpty

def sequence (l : Link) : List UInt8 :=
  Text.toBytes "\x1b]8;" ++ l.options ++ Text.toBytes ";" ++ l.target ++ [7]

def clearSequence : List UInt8 := sequence {}

end Link

structure Pen where
  style : Style := {}
  link : Link := {}
  deriving DecidableEq, Inhabited

namespace Pen

def clearStyle (p : Pen) : List UInt8 :=
  if p.style.isPlain then [] else Text.toBytes Style.clearSequence

def clearLink (p : Pen) : List UInt8 := if p.link.isEmpty then [] else Link.clearSequence

def setStyle (p : Pen) : List UInt8 :=
  if p.style.isPlain then [] else Text.toBytes p.style.sequence

def setLink (p : Pen) : List UInt8 := if p.link.isEmpty then [] else p.link.sequence

def newLine (p : Pen) : List UInt8 :=
  p.clearStyle ++ p.clearLink ++ [10] ++ p.setLink ++ p.setStyle

def finish (p : Pen) : List UInt8 := p.clearLink ++ p.clearStyle

end Pen

end WordLayout.Terminal
