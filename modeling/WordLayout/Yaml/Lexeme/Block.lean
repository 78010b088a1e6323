import WordLayout.Yaml.Lexeme.Gap

namespace WordLayout.Yaml.Lexeme

open Scan

inductive Chomping
  | clip
  | keep
  | strip
  deriving DecidableEq, Inhabited

structure BlockHeader where
  chomping : Chomping := .clip
  increment : Nat := 0
  deriving Inhabited

def chomping? (c : Char) : Option Chomping :=
  if c == '+' then some .keep else if c == '-' then some .strip else none

def readChomping : Scan (Option Chomping) := do
  demand 1
  match chomping? (← head) with
  | some chomping =>
    skip
    pure (some chomping)
  | none => pure none

def readIncrement (context : Mark) : Scan Nat := do
  demand 1
  let x ← head
  if x.isDigit then
    if x == '0' then refuse .zeroIndent context
    skip
    pure (x.toNat - 48)
  else pure 0

def blockHeader (context : Mark) : Scan BlockHeader := do
  match ← readChomping with
  | some chomping => pure { chomping, increment := ← readIncrement context }
  | none =>
    let increment ← readIncrement context
    let chomping ← if increment = 0 then pure none else readChomping
    pure { chomping := chomping.getD .clip, increment }

def blockGap (context : Mark) (indent : Nat) : Nat → Nat → String → Scan (Nat × String)
  | 0, deepest, breaks => pure (deepest, breaks)
  | fuel + 1, deepest, breaks => do
    demand 1
    let c ← get
    let indenting := indent = 0 ∨ c.mark.column < indent
    if c.head == ' ' ∧ indenting then
      skip
      blockGap context indent fuel deepest breaks
    else
      let deepest := max deepest c.mark.column
      if c.head == '\t' ∧ indenting then refuse .tabIndent context
      if isBreak c.head then
        let text ← readBreak
        blockGap context indent fuel deepest (breaks ++ text)
      else pure (deepest, breaks)

structure BlockText where
  text : String := ""
  ended : String := ""
  breaks : String := ""
  blank : Bool := false
  deriving DecidableEq, Inhabited

namespace BlockText

def joined (t : BlockText) (literal blank : Bool) : String :=
  let ended :=
    if !literal && !t.blank && !blank && t.ended == "\n" then (if t.breaks.isEmpty then " " else "")
    else t.ended
  t.text ++ ended ++ t.breaks

def chomped (t : BlockText) : Chomping → String
  | .strip => t.text
  | .clip => t.text ++ t.ended
  | .keep => t.text ++ t.ended ++ t.breaks

end BlockText

def blockLines (literal : Bool) (context : Mark) (indent : Nat) : Nat → BlockText → Scan BlockText
  | 0, t => pure t
  | fuel + 1, t => do
    let c ← get
    if c.mark.column ≠ indent ∨ c.atEnd then pure t
    else
      let blank := isGap c.head
      let text ← readRun (fun x => !isLineEnd x) (c.size + 1) (t.joined literal blank)
      let ended ← readBreak
      let (_, breaks) ← blockGap context indent (c.size + 1) 0 ""
      blockLines literal context indent fuel { text, ended, breaks, blank }

def block (literal : Bool) (outer : Int) : Scan String := do
  let c ← get
  skip
  let header ← blockHeader c.mark
  finishLine c.mark
  let given := if header.increment = 0 then 0 else outer.toNat + header.increment
  let (deepest, breaks) ← blockGap c.mark given (c.size + 1) 0 ""
  let indent := if given = 0 then max (max deepest (outer + 1).toNat) 1 else given
  demand 1
  let t ← blockLines literal c.mark indent (c.size + 1) { breaks }
  pure (t.chomped header.chomping)

end WordLayout.Yaml.Lexeme
