import WordLayout.Text.Bytes
import WordLayout.Yaml.Lexeme.Gap

namespace WordLayout.Yaml.Lexeme

open Scan

def anchorName : Scan String := do
  let context := (← get).mark
  skip
  demand 1
  let name ← takeWhile isWordChar
  let x ← head
  if name.isEmpty || !(isGapOrEnd x || "?:,]\x7d%@\x60".toList.contains x) then
    refuse .anchorName context
  pure name

def octetWidth (n : Nat) : Nat :=
  if n < 0x80 then 1
  else if n < 0xc0 then 0
  else if n < 0xe0 then 2
  else if n < 0xf0 then 3
  else if n < 0xf8 then 4
  else 0

def readOctet (context : Mark) (wrong : Nat → Option Problem) : Scan Nat := do
  demand 3
  let c ← get
  match c.head, hexValue? (c.peek 1), hexValue? (c.peek 2) with
  | '%', some high, some low =>
    let octet := high * 16 + low
    if let some problem := wrong octet then refuse problem context
    skip
    skip
    skip
    pure octet
  | _, _, _ => refuse .noEscapedOctet context

def trailingOctets (context : Mark) : Nat → Scan (List UInt8)
  | 0 => pure []
  | n + 1 => do
    let b ← readOctet context fun b => if b / 64 = 2 then none else some .trailingTagOctet
    let bs ← trailingOctets context n
    pure (UInt8.ofNat b :: bs)

def escapedOctets (context : Mark) : Scan (List UInt8) := do
  let b ← readOctet context fun b => if octetWidth b = 0 then some .leadingTagOctet else none
  let bs ← trailingOctets context (octetWidth b - 1)
  pure (UInt8.ofNat b :: bs)

def tagOctets (context : Mark) : Nat → List UInt8 → Scan (List UInt8)
  | 0, bs => pure bs
  | fuel + 1, bs => do
    let x ← head
    if !isTagChar x then pure bs
    else
      let more ←
        if x == '%' then escapedOctets context
        else do
          skip
          pure [UInt8.ofNat x.toNat]
      demand 1
      tagOctets context fuel (bs ++ more)

def tagUri (context : Mark) (start : Option String) : Scan String := do
  demand 1
  let bs ← tagOctets context ((← get).size + 1) []
  if start.isNone && bs.isEmpty then refuse .noTagUri context
  pure (start.getD "" ++ Text.ofBytes bs)

def tagHandle (directive : Bool) (context : Mark) : Scan String := do
  demand 1
  if (← head) != '!' then refuse .noTagMark context
  skip
  demand 1
  let name ← takeWhile isWordChar
  if (← head) == '!' then
    skip
    pure ("!" ++ name ++ "!")
  else
    if directive && !name.isEmpty then refuse .noTagMark context
    pure ("!" ++ name)

def isFullHandle (handle : String) : Bool :=
  2 ≤ handle.length && handle.toList.getLast? == some '!'

def tagParts (context : Mark) : Scan (String × String) := do
  demand 2
  if (← get).peek 1 == '<' then
    skip
    skip
    let suffix ← tagUri context none
    if (← head) != '>' then refuse .noTagClose context
    skip
    pure ("", suffix)
  else
    let handle ← tagHandle false context
    if isFullHandle handle then pure (handle, ← tagUri context none)
    else
      let suffix ← tagUri context (some (String.ofList (handle.toList.drop 1)))
      pure (if suffix.isEmpty then ("", "!") else ("!", suffix))

def tag : Scan (String × String) := do
  let context := (← get).mark
  let parts ← tagParts context
  demand 1
  if !isGapOrEnd (← head) then refuse .noTagEnd context
  pure parts

end WordLayout.Yaml.Lexeme
