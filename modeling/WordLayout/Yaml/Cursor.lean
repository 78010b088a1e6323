import WordLayout.Yaml.Char
import WordLayout.Yaml.Input

namespace WordLayout.Yaml

namespace Mark

def next (m : Mark) : Mark := { m with index := m.index + 1, column := m.column + 1 }

def newLine (m : Mark) (width : Nat) : Mark :=
  { index := m.index + width, line := m.line + 1, column := 0 }

end Mark

structure Cursor where
  rest : List Char
  size : Nat
  mark : Mark := {}
  newLines : Nat := 0
  ready : Nat := 0
  chunks : List Nat := []
  fault : Option Problem := none
  spare : Nat := 0
  /-- When a chunk was last asked for, the next character was a byte order mark. -/
  marked : Bool := false
  deriving Inhabited

inductive Refusal
  | bytes (problem : Problem)
  | token (problem : Problem) (context mark : Mark)
  deriving DecidableEq, Inhabited

abbrev Scan := EStateM Refusal Cursor

namespace Cursor

def ofInput (input : Input) : Cursor :=
  { rest := input.chars, size := input.chars.length, chunks := input.chunks, fault := input.fault
    spare := input.spare }

def peek (c : Cursor) (k : Nat) : Char := c.rest.getD k nul

def head (c : Cursor) : Char := c.peek 0

def atEnd (c : Cursor) : Bool := c.rest.isEmpty

def next (c : Cursor) : Cursor :=
  { c with
    rest := c.rest.tail, mark := c.mark.next, ready := c.ready - 1
    newLines := if isGap c.head then c.newLines else 0 }

def breakWidth (c : Cursor) : Nat :=
  match c.rest with
  | '\r' :: '\n' :: _ => 2
  | x :: _ => if isBreak x then 1 else 0
  | [] => 0

def pastBreak (c : Cursor) : Cursor :=
  match c.breakWidth with
  | 0 => c
  | width =>
    { c with
      rest := c.rest.drop width, mark := c.mark.newLine width, ready := c.ready - width
      newLines := c.newLines + 1 }

def atDocumentMark (c : Cursor) (x : Char) : Bool :=
  c.mark.column == 0 && c.peek 0 == x && c.peek 1 == x && c.peek 2 == x && isGapOrEnd (c.peek 3)

def atDocumentBoundary (c : Cursor) : Bool := c.atDocumentMark '-' || c.atDocumentMark '.'

def takeChunks (n : Nat) : Nat → List Nat → Nat × List Nat
  | ready, [] => (ready, [])
  | ready, chunk :: chunks =>
    if n ≤ ready then (ready, chunk :: chunks) else takeChunks n (ready + chunk) chunks

end Cursor

namespace Scan

def refuse {α : Type} (problem : Problem) (context : Mark) : Scan α := do
  throw (.token problem context (← get).mark)

/-- Asks for `n` characters. Chunks are decoded where fewer are ready; if none are left, the end of
the text becomes ready, or the problem behind them comes up. -/
def demand (n : Nat) : Scan Unit := do
  let c ← get
  if c.ready < n then
    let (ready, chunks) := Cursor.takeChunks n c.ready c.chunks
    let c := { c with ready, chunks, marked := c.head == byteOrderMark }
    if n ≤ ready then set c
    else
      match c.fault with
      | none => set { c with ready := ready + 1 }
      | some problem =>
        set { c with ready := ready + c.spare, spare := 0 }
        throw (.bytes problem)

def head : Scan Char := return (← get).head

def skip : Scan Unit := modify Cursor.next

def skipBreak : Scan Unit := do
  demand 2
  modify Cursor.pastBreak

def readBreak : Scan String := do
  demand 2
  let c ← get
  set c.pastBreak
  match c.breakWidth with
  | 0 => pure ""
  | 1 => pure (String.singleton (breakChar c.head))
  | _ => pure "\n"

def readRun (p : Char → Bool) : Nat → String → Scan String
  | 0, run => pure run
  | fuel + 1, run => do
    let x ← head
    if p x then
      skip
      demand 1
      readRun p fuel (run.push x)
    else pure run

def takeWhile (p : Char → Bool) : Scan String := do
  readRun p ((← get).size + 1) ""

def skipWhile (p : Char → Bool) : Scan Unit := do
  let _ ← takeWhile p

def skipGap : Scan Unit := do
  demand 1
  skipWhile isGap

def finishLine (context : Mark) : Scan Unit := do
  skipGap
  if (← head) == '#' then skipWhile fun x => !isLineEnd x
  if !isLineEnd (← head) then refuse .noLineEnd context
  if isBreak (← head) then skipBreak

end Scan

end WordLayout.Yaml
