import WordLayout.Yaml.Cursor

namespace WordLayout.Yaml.Lexeme

open Scan

structure Gap where
  blanks : String := ""
  broken : Bool := false
  first : String := ""
  more : String := ""
  deriving DecidableEq, Inhabited

namespace Gap

def addBlank (g : Gap) (c : Char) : Gap :=
  if g.broken then g else { g with blanks := g.blanks.push c }

def addBreak (g : Gap) (text : String) : Gap :=
  if g.broken then { g with more := g.more ++ text }
  else { broken := true, first := text }

def text (g : Gap) : String :=
  if g.broken then
    if g.first == "\n" then (if g.more.isEmpty then " " else g.more) else g.first ++ g.more
  else g.blanks

end Gap

def readGap (context : Mark) (indent : Option Nat) : Nat → Gap → Scan Gap
  | 0, g => pure g
  | fuel + 1, g => do
    let x ← head
    if isGap x then
      let m := (← get).mark
      if x == '\t' && g.broken && (indent.map fun n => decide (m.column < n)).getD false then
        refuse .tabInPlain context
      skip
      demand 1
      readGap context indent fuel (g.addBlank x)
    else if isBreak x then
      let text ← readBreak
      demand 1
      readGap context indent fuel (g.addBreak text)
    else pure g

end WordLayout.Yaml.Lexeme
