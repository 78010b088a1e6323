import WordLayout.Yaml.TokenStream.Fetch

namespace WordLayout.Yaml

namespace TokenStream

def keyAt (s : TokenStream) (level : Nat) : KeyStart :=
  (s.keyStart :: s.outerKeys).getD (s.level - level) {}

def settleKey (s : TokenStream) (level : Nat) : TokenStream :=
  if level = s.level then { s with keyStart := { s.keyStart with possible := false } }
  else
    { s with
      outerKeys := s.outerKeys.modify (s.level - level - 1) fun k => { k with possible := false } }

def unfoldComments (s : TokenStream) (t : Token) : TokenStream :=
  let (head, comments) := Comment.unfold t.start.index (t.kind == .blockEnd) s.head s.comments
  { s with head, comments }

def skip (s : TokenStream) : TokenStream :=
  { s with
    queue := s.queue.drop 1, taken := s.taken + 1
    waiting := s.waiting.filter (s.taken < ·.1) }

end TokenStream

namespace Tokens

def headWaits : Tokens Bool := do
  let s ← get
  match s.waiting.lookup s.taken with
  | none => pure false
  | some level =>
    let waits ← isOpen (s.keyAt level)
    if !waits then modify (·.settleKey level)
    pure waits

def fill : Nat → Tokens Unit
  | 0 => pure ()
  | fuel + 1 => do
    if (← get).queue.length < 3 then
      fetch
      fill fuel
    else if ← headWaits then
      fetch
      fill fuel

def peek : Tokens Token := do
  fill ((← get).cursor.size + 8)
  let t := (← get).queue.headD default
  modify (·.unfoldComments t)
  pure t

end Tokens

end WordLayout.Yaml
