import WordLayout.Yaml.Lexeme.Gap

namespace WordLayout.Yaml.Lexeme

open Scan

def inPlainWord (flow : Bool) (c : Cursor) : Bool :=
  !(isGapOrEnd c.head || (c.head == ':' && isGapOrEnd (c.peek 1)) ||
    (flow && (c.head == '?' || isFlowIndicator c.head)))

structure PlainText where
  text : String := ""
  stop : Mark
  gap : Gap := {}
  deriving DecidableEq, Inhabited

namespace PlainText

def add (t : PlainText) (c : Char) (stop : Mark) : PlainText :=
  { text := (t.text ++ t.gap.text).push c, stop }

end PlainText

def plainWord (flow : Bool) : Nat → PlainText → Scan PlainText
  | 0, t => pure t
  | fuel + 1, t => do
    let c ← get
    if inPlainWord flow c then
      skip
      demand 2
      plainWord flow fuel (t.add c.head c.next.mark)
    else pure t

/-- Reads words and the gaps behind them. Each round but the last reads a character, so `fuel` may
be the number of characters that are left. -/
def plainFrom (flow : Bool) (indent : Nat) (context : Mark) : Nat → PlainText → Scan PlainText
  | 0, t => pure t
  | fuel + 1, t => do
    demand 4
    let c ← get
    if c.atDocumentBoundary || c.head == '#' then pure t
    else
      let t ← plainWord flow (c.size + 1) t
      let x ← head
      if isGap x || isBreak x then
        demand 1
        let gap ← readGap context (some indent) (c.size + 1) t.gap
        let t := { t with gap }
        if !flow && (← get).mark.column < indent then pure t
        else plainFrom flow indent context fuel t
      else pure t

def plain (flow : Bool) (indent : Nat) : Scan PlainText := do
  let c ← get
  plainFrom flow indent c.mark (c.size + 1) { stop := c.mark }

end WordLayout.Yaml.Lexeme
