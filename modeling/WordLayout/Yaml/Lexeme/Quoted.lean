import WordLayout.Yaml.Lexeme.Gap

namespace WordLayout.Yaml.Lexeme

open Scan

def escape? (c : Char) : Option Char :=
  match c with
  | '0' => some nul
  | 'a' => some '\x07'
  | 'b' => some '\x08'
  | 't' | '\t' => some '\t'
  | 'n' => some '\n'
  | 'v' => some '\x0b'
  | 'f' => some '\x0c'
  | 'r' => some '\r'
  | 'e' => some '\x1b'
  | ' ' => some ' '
  | '\x22' => some '\x22'
  | '\x27' => some '\x27'
  | '\\' => some '\\'
  | 'N' => some nextLine
  | '_' => some '\xa0'
  | 'L' => some lineSeparator
  | 'P' => some paragraphSeparator
  | _ => none

def escapeWidth? (c : Char) : Option Nat :=
  match c with
  | 'x' => some 2
  | 'u' => some 4
  | 'U' => some 8
  | _ => none

def hexNumber? (cs : List Char) : Option Nat :=
  cs.foldlM (fun n c => (hexValue? c).map (n * 16 + ·)) 0

def skipMany : Nat → Scan Unit
  | 0 => pure ()
  | n + 1 => do
    skip
    skipMany n

def escapeCode (context : Mark) (width : Nat) : Scan Char := do
  demand width
  let c ← get
  match hexNumber? ((List.range width).map c.peek) with
  | none => refuse .noHexDigit context
  | some n =>
    if (0xd800 ≤ n && n ≤ 0xdfff) || 0x10ffff < n then refuse .escapeCode context
    skipMany width
    pure (Char.ofNat n)

def readEscape (context : Mark) : Scan Char := do
  let x := (← get).peek 1
  match escape? x, escapeWidth? x with
  | some y, _ =>
    skipMany 2
    pure y
  | none, some width =>
    skipMany 2
    escapeCode context width
  | none, none => refuse .unknownEscape context

def quotedWord (quote : Char) (context : Mark) : Nat → String → Scan (String × Bool)
  | 0, text => pure (text, false)
  | fuel + 1, text => do
    let c ← get
    let single := quote == '\x27'
    if isGapOrEnd c.head then pure (text, false)
    else if single && c.head == quote && c.peek 1 == quote then
      skipMany 2
      demand 2
      quotedWord quote context fuel (text.push quote)
    else if c.head == quote then pure (text, false)
    else if !single && c.head == '\\' && isBreak (c.peek 1) then
      demand 3
      skip
      skipBreak
      pure (text, true)
    else if !single && c.head == '\\' then
      let x ← readEscape context
      demand 2
      quotedWord quote context fuel (text.push x)
    else
      skip
      demand 2
      quotedWord quote context fuel (text.push c.head)

def quotedFrom (quote : Char) (context : Mark) : Nat → String → Scan String
  | 0, _ => refuse .endInQuotes context
  | fuel + 1, text => do
    demand 4
    let c ← get
    if c.atDocumentBoundary then refuse .documentInQuotes context
    if c.atEnd then refuse .endInQuotes context
    let (text, broken) ← quotedWord quote context (c.size + 1) text
    demand 1
    if (← head) == quote then
      skip
      pure text
    else
      let gap ← readGap context none (c.size + 1) { broken }
      quotedFrom quote context fuel (text ++ gap.text)

def quoted : Scan String := do
  let c ← get
  skip
  quotedFrom c.head c.mark (c.size + 1) ""

end WordLayout.Yaml.Lexeme
